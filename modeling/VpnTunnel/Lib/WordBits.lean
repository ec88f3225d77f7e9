import Mathlib.Data.Vector.Basic

/-!
# Bit strings kept in words

An array of `n` words of `w` bits each, read as one string of bits: bit `k` of the array is bit
`k % w` of word `k / w`. The lemmas say what the ways of building an array do to its bits, so that
a proof about a bitmap never looks at a word.
-/

namespace WordBits

variable {w n : ℕ}

/-- Bit `k` of the array: bit `k % w` of word `k / w`, and `false` past the last word. -/
def bit (b : List.Vector (BitVec w) n) (k : ℕ) : Bool :=
  if h : k / w < n then (b.get ⟨k / w, h⟩).getLsbD (k % w) else false

/-- A bit is read in the word it lies in. -/
theorem bit_of_lt {b : List.Vector (BitVec w) n} {k : ℕ} (h : k / w < n) :
    bit b k = (b.get ⟨k / w, h⟩).getLsbD (k % w) := by
  rw [bit, dif_pos h]

/-- Bit `j` of word `i` is bit `w * i + j` of the array. -/
theorem bit_word (b : List.Vector (BitVec w) n) (i : Fin n) {j : ℕ} (hj : j < w) :
    bit b (w * i + j) = (b.get i).getLsbD j := by
  have hdiv : (w * i + j) / w = i := by
    rw [Nat.mul_add_div (by omega), Nat.div_eq_of_lt hj, Nat.add_zero]
  have hmod : (w * i + j) % w = j := by rw [Nat.mul_add_mod, Nat.mod_eq_of_lt hj]
  have hi : (w * i + j) / w < n := by rw [hdiv]; exact i.isLt
  rw [bit_of_lt hi, hmod]
  congr 2
  exact Fin.ext hdiv

/-- An array is determined by its bits. -/
theorem ext_bit {b c : List.Vector (BitVec w) n} (h : ∀ k < w * n, bit b k = bit c k) : b = c := by
  apply List.Vector.ext
  intro i
  apply BitVec.eq_of_getLsbD_eq
  intro j hj
  have hin : w * i + j < w * n := calc
    w * i + j < w * i + w := Nat.add_lt_add_left hj _
    _ = w * (i + 1) := (Nat.mul_succ w i).symm
    _ ≤ w * n := Nat.mul_le_mul_left w i.isLt
  rw [← bit_word b i hj, ← bit_word c i hj, h _ hin]

/-- The array of zero words has no bit set. -/
@[simp] theorem bit_replicate_zero (k : ℕ) : bit (List.Vector.replicate n (0 : BitVec w)) k = false := by
  unfold bit
  split
  · rw [List.Vector.get_replicate]; simp
  · rfl

/-- The word `1 << j` has bit `j` and no other. -/
theorem getLsbD_one_shiftLeft {j : ℕ} (hj : j < w) (r : ℕ) :
    (1#w <<< j).getLsbD r = decide (r = j) := by
  rw [← BitVec.twoPow_eq, BitVec.getLsbD_twoPow]
  simp [hj, eq_comm]

/-- Masking a word with `1 << j` tests bit `j`. -/
theorem and_one_shiftLeft_ne_zero {x : BitVec w} {j : ℕ} (hj : j < w) :
    x &&& 1#w <<< j ≠ 0 ↔ x.getLsbD j = true := by
  constructor
  · intro h
    by_contra hx
    apply h
    apply BitVec.eq_of_getLsbD_eq
    intro r _
    rw [BitVec.getLsbD_and, getLsbD_one_shiftLeft hj]
    by_cases hr : r = j
    · subst hr; simp [hx]
    · simp [hr]
  · intro hx h
    have := congrArg (·.getLsbD j) h
    simp only [BitVec.getLsbD_and, getLsbD_one_shiftLeft hj, hx] at this
    simp at this

/-- Setting one bit of one word, `b[i] |= 1 << j`, sets bit `w * i + j` and no other. -/
theorem bit_set_or (b : List.Vector (BitVec w) n) (i : Fin n) {j : ℕ} (hj : j < w) (k : ℕ) :
    bit (b.set i (b.get i ||| 1#w <<< j)) k = (bit b k || decide (k = w * i + j)) := by
  have hw : 0 < w := by omega
  unfold bit
  split
  case isTrue h =>
    rw [List.Vector.get_set_eq_if]
    split
    case isTrue hi =>
      have hi' : (i : ℕ) = k / w := by rw [hi]
      have hiff : k % w = j ↔ k = w * i + j := by
        have hk := Nat.div_add_mod k w
        rw [hi']; omega
      rw [BitVec.getLsbD_or, getLsbD_one_shiftLeft hj, decide_eq_decide.mpr hiff]
      congr 3
    case isFalse hi =>
      have hne : ¬ k = w * i + j := by
        rintro rfl
        apply hi
        ext
        simp [Nat.mul_add_div hw, Nat.div_eq_of_lt hj]
      simp [hne]
  case isFalse h =>
    have hne : ¬ k = w * i + j := by
      rintro rfl
      apply h
      rw [Nat.mul_add_div hw, Nat.div_eq_of_lt hj, Nat.add_zero]
      exact i.isLt
    simp [hne]

end WordBits
