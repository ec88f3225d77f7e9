import Mathlib.Algebra.BigOperators.Fin
import VpnTunnel.Lib.WordBits

/-!
# Arrays of words as numbers

An array of `n` words of `w` bits each stands for a number below `2 ^ (w * n)`, its first word the lowest. The
number has the bits of the array (`testBit_value`), so that what an operation does to bits is what it does to the
number (`value_of_shifted`).

The second half is the array and the shifts of C, in which an index outside the array and a shift by the width of
the word or more have no meaning: `read?`, `write?`, `shl?` and `shr?` have no result there.
-/

namespace WordBits

variable {w n : ℕ}

/-! ### The number -/

/-- The number an array stands for. -/
def value (b : List.Vector (BitVec w) n) : ℕ := ∑ i : Fin n, (b.get i).toNat * 2 ^ (w * i)

theorem value_cons (x : BitVec w) (b : List.Vector (BitVec w) n) : value (x ::ᵥ b) = 2 ^ w * value b + x.toNat := by
  have hrest : ∀ i : Fin n, ((x ::ᵥ b).get i.succ).toNat * 2 ^ (w * (i.succ : ℕ)) =
      2 ^ w * ((b.get i).toNat * 2 ^ (w * i)) := by
    intro i
    rw [List.Vector.get_cons_succ, Fin.val_succ, Nat.mul_succ, Nat.pow_add]
    ac_rfl
  rw [value, Fin.sum_univ_succ, Finset.sum_congr rfl fun i _ => hrest i, ← Finset.mul_sum, ← value,
    List.Vector.get_cons_zero, Fin.val_zero, Nat.mul_zero, Nat.pow_zero, Nat.mul_one, Nat.add_comm]

/-- The bits of an array with one more word at the low end. -/
theorem bit_cons (hw : 0 < w) (x : BitVec w) (b : List.Vector (BitVec w) n) (k : ℕ) :
    bit (x ::ᵥ b) k = if k < w then x.getLsbD k else bit b (k - w) := by
  split
  case isTrue hk =>
    have hfirst := bit_word (x ::ᵥ b) 0 hk
    rwa [List.Vector.get_cons_zero, Fin.val_zero, Nat.mul_zero, Nat.zero_add] at hfirst
  case isFalse hk =>
    have hdiv : k / w = (k - w) / w + 1 := Nat.div_eq_sub_div hw (Nat.le_of_not_lt hk)
    have hmod : k % w = (k - w) % w := Nat.mod_eq_sub_mod (Nat.le_of_not_lt hk)
    by_cases hin : (k - w) / w < n
    · have hin' : k / w < n + 1 := by omega
      have hsucc : (⟨k / w, hin'⟩ : Fin (n + 1)) = Fin.succ ⟨(k - w) / w, hin⟩ := Fin.ext hdiv
      rw [bit_of_lt hin', bit_of_lt hin, hsucc, List.Vector.get_cons_succ, hmod]
    · rw [bit, bit, dif_neg (by omega), dif_neg hin]

/-- The number has the bits of the array. -/
theorem testBit_value (hw : 0 < w) (b : List.Vector (BitVec w) n) (k : ℕ) : (value b).testBit k = bit b k := by
  induction n generalizing k with
  | zero => simp [value, bit]
  | succ n ih =>
    obtain ⟨x, b, rfl⟩ := b.exists_eq_cons
    rw [value_cons, Nat.testBit_two_pow_mul_add _ x.isLt, ih, bit_cons hw]
    rfl

/-- A word of the array is a digit of the number. -/
theorem toNat_get_eq (hw : 0 < w) (b : List.Vector (BitVec w) n) (i : Fin n) :
    (b.get i).toNat = value b / 2 ^ (w * i) % 2 ^ w := by
  apply Nat.eq_of_testBit_eq
  intro j
  rw [Nat.testBit_mod_two_pow, Nat.testBit_div_two_pow, testBit_value hw]
  by_cases hj : j < w
  · rw [Nat.add_comm, bit_word b i hj, decide_eq_true hj, Bool.true_and]
    rfl
  · rw [decide_eq_false hj, Bool.false_and]
    exact BitVec.getLsbD_of_ge _ _ (Nat.le_of_not_lt hj)

/-- An array whose bits are those of another one, `d` places up, stands for that number times `2 ^ d`, cut to the
width of the array. -/
theorem value_of_shifted (hw : 0 < w) {b c : List.Vector (BitVec w) n} {d : ℕ}
    (h : ∀ k < w * n, bit c k = (decide (d ≤ k) && bit b (k - d))) : value c = value b * 2 ^ d % 2 ^ (w * n) := by
  apply Nat.eq_of_testBit_eq
  intro k
  rw [Nat.testBit_mod_two_pow, Nat.testBit_mul_two_pow, testBit_value hw, testBit_value hw]
  by_cases hk : k < w * n
  · rw [decide_eq_true hk, Bool.true_and, h k hk]
  · have hout : ¬ k / w < n := fun hlt => hk (Nat.mul_comm n w ▸ (Nat.div_lt_iff_lt_mul hw).mp hlt)
    rw [decide_eq_false hk, Bool.false_and, bit, dif_neg hout]

/-! ### Arrays and shifts that may have no meaning -/

/-- Read word `i`. -/
def read? (b : List.Vector (BitVec w) n) (i : ℕ) : Option (BitVec w) :=
  if h : i < n then some (b.get ⟨i, h⟩) else none

/-- Write word `i`. -/
def write? (b : List.Vector (BitVec w) n) (i : ℕ) (x : BitVec w) : Option (List.Vector (BitVec w) n) :=
  if h : i < n then some (b.set ⟨i, h⟩ x) else none

/-- Shift a word to the left. -/
def shl? (x : BitVec w) (s : ℕ) : Option (BitVec w) := if s < w then some (x <<< s) else none

/-- Shift a word to the right. -/
def shr? (x : BitVec w) (s : ℕ) : Option (BitVec w) := if s < w then some (x >>> s) else none

section

variable {b : List.Vector (BitVec w) n} {i s : ℕ} {x : BitVec w}

theorem read?_of_lt (h : i < n) : read? b i = some (b.get ⟨i, h⟩) := dif_pos h

theorem write?_of_lt (h : i < n) : write? b i x = some (b.set ⟨i, h⟩ x) := dif_pos h

theorem shl?_of_lt (h : s < w) : shl? x s = some (x <<< s) := if_pos h

theorem shr?_of_lt (h : s < w) : shr? x s = some (x >>> s) := if_pos h

end

/-! ### Filling an array -/

theorem set_set (b : List.Vector (BitVec w) n) (i : Fin n) (x y : BitVec w) : (b.set i x).set i y = b.set i y := by
  refine List.Vector.ext fun j => ?_
  simp only [List.Vector.get_set_eq_if]
  split <;> rfl

theorem set_get (b : List.Vector (BitVec w) n) (i : Fin n) : b.set i (b.get i) = b := by
  refine List.Vector.ext fun j => ?_
  rw [List.Vector.get_set_eq_if]
  split
  case isTrue h => rw [h]
  case isFalse => rfl

/-- A loop that puts `f i` in word `i`, where there was a zero, fills the array with `f`. -/
theorem foldlM_fill {step : List.Vector (BitVec w) n → ℕ → Option (List.Vector (BitVec w) n)} {f : Fin n → BitVec w}
    (hstep : ∀ (b : List.Vector (BitVec w) n) (i : Fin n), b.get i = 0 → step b i = some (b.set i (f i))) :
    (List.range n).foldlM step (List.Vector.replicate n 0) = some (List.Vector.ofFn f) := by
  -- after `m` steps the words below `m` are in place and the others still zero
  have hrun : ∀ m ≤ n, (List.range m).foldlM step (List.Vector.replicate n 0) =
      some (List.Vector.ofFn fun i => if (i : ℕ) < m then f i else 0) := by
    intro m hm
    induction m with
    | zero =>
      refine congrArg some (List.Vector.ext fun i => ?_)
      rw [List.Vector.get_replicate, List.Vector.get_ofFn, if_neg (Nat.not_lt_zero _)]
    | succ m ih =>
      have hzero : (List.Vector.ofFn fun i : Fin n => if (i : ℕ) < m then f i else 0).get ⟨m, hm⟩ = 0 := by
        rw [List.Vector.get_ofFn, if_neg (Nat.lt_irrefl m)]
      rw [List.range_succ, List.foldlM_append, ih (Nat.le_of_succ_le hm), Option.bind_eq_bind, Option.bind_some,
        List.foldlM_cons, hstep _ ⟨m, hm⟩ hzero]
      refine congrArg some (List.Vector.ext fun i => ?_)
      rw [List.Vector.get_set_eq_if, List.Vector.get_ofFn, List.Vector.get_ofFn]
      by_cases hi : m = i
      · obtain rfl : (⟨m, hm⟩ : Fin n) = i := Fin.ext hi
        rw [if_pos rfl, if_pos (Nat.lt_succ_self m)]
      · have hne : (⟨m, hm⟩ : Fin n) ≠ i := fun h => hi (congrArg Fin.val h)
        have hlt : (i : ℕ) < m + 1 ↔ (i : ℕ) < m := by omega
        simp only [if_neg hne, hlt]
  rw [hrun n le_rfl]
  exact congrArg some (List.Vector.ext fun i => by rw [List.Vector.get_ofFn, List.Vector.get_ofFn, if_pos i.isLt])

end WordBits
