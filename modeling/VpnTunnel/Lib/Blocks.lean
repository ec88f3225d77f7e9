import Mathlib.Data.List.Basic

/-!
# Taking in a message block by block

A hash or a MAC works on blocks of `n` octets, and takes its message in parts of any length: what does not fill a
block waits for the next part. A state is what the blocks so far were made into, and what waits.

The meaning of taking in a part is said octet by octet (`absorb`): an octet is put behind those that wait, and when
there are `n` of them they are a block. Then the parts do not matter, only the message (`absorb_append`). A program
does not go octet by octet: it fills the block that waits, handles all whole blocks at once and keeps the rest. The
lemmas about `absorb` are one for each of these steps, and `absorb_whole` says what is there after a whole message.
-/

namespace Blocks

variable {α σ : Type} (n : ℕ) (block : σ → List α → σ)

/-- Take in one octet. -/
def absorbOne (s : σ × List α) (a : α) : σ × List α :=
  if (s.2 ++ [a]).length = n then (block s.1 (s.2 ++ [a]), []) else (s.1, s.2 ++ [a])

/-- Take in a part of the message. -/
def absorb (s : σ × List α) (m : List α) : σ × List α := m.foldl (absorbOne n block) s

@[simp] theorem absorb_nil (s : σ × List α) : absorb n block s [] = s := rfl

/-- Parts taken in one after the other are taken in as one. -/
theorem absorb_append (s : σ × List α) (m m' : List α) :
    absorb n block s (m ++ m') = absorb n block (absorb n block s m) m' :=
  List.foldl_append

variable {n block}

/-- A part that does not fill the block waits. -/
theorem absorb_of_lt {h : σ} {pending m : List α} (hlen : pending.length + m.length < n) :
    absorb n block (h, pending) m = (h, pending ++ m) := by
  induction m generalizing pending with
  | nil => rw [absorb_nil, List.append_nil]
  | cons a m ih =>
    rw [List.length_cons] at hlen
    have hone : absorbOne n block (h, pending) a = (h, pending ++ [a]) := by
      have hnot : (pending ++ [a]).length ≠ n := by
        rw [List.length_append, List.length_singleton]
        omega
      exact if_neg hnot
    have hrest : absorb n block (h, pending ++ [a]) m = (h, pending ++ [a] ++ m) :=
      ih (by rw [List.length_append, List.length_singleton]; omega)
    rw [absorb, List.foldl_cons, hone]
    rw [absorb] at hrest
    rw [hrest, List.append_assoc, List.singleton_append]

/-- A part that fills the block makes it one. -/
theorem absorb_of_eq {h : σ} {pending m : List α} (hm : m ≠ []) (hlen : pending.length + m.length = n) :
    absorb n block (h, pending) m = (block h (pending ++ m), []) := by
  obtain ⟨front, last, rfl⟩ : ∃ front last, m = front ++ [last] :=
    ⟨m.dropLast, m.getLast hm, (List.dropLast_append_getLast hm).symm⟩
  rw [List.length_append, List.length_singleton] at hlen
  have hfull : (pending ++ front ++ [last]).length = n := by
    rw [List.length_append, List.length_append, List.length_singleton]
    omega
  rw [absorb_append, absorb_of_lt (m := front) (by omega), ← List.append_assoc]
  exact if_pos hfull

/-- What waits is never a block. -/
theorem length_absorb_lt {s : σ × List α} (hs : s.2.length < n) (m : List α) : (absorb n block s m).2.length < n := by
  induction m generalizing s with
  | nil => exact hs
  | cons a m ih =>
    refine ih ?_
    rw [absorbOne]
    split
    · exact Nat.zero_lt_of_lt hs
    · next hne =>
      rw [List.length_append, List.length_singleton] at hne ⊢
      omega

variable (n block) in
/-- The blocks a string begins with, one after the other. -/
def blocks (h : σ) (m : List α) : σ :=
  if 0 < n ∧ n ≤ m.length then blocks (block h (m.take n)) (m.drop n) else h
termination_by m.length
decreasing_by rw [List.length_drop]; omega

theorem blocks_of_lt {h : σ} {m : List α} (hlen : m.length < n) : blocks n block h m = h := by
  rw [blocks, if_neg (by omega)]

theorem blocks_of_le {h : σ} {m : List α} (hn : 0 < n) (hlen : n ≤ m.length) :
    blocks n block h m = blocks n block (block h (m.take n)) (m.drop n) := by
  rw [blocks, if_pos ⟨hn, hlen⟩]

/-- What is left of a string when the blocks it begins with are taken off. -/
def rest (n : ℕ) (m : List α) : List α := m.drop (m.length / n * n)

theorem rest_of_lt {m : List α} (hlen : m.length < n) : rest n m = m := by
  rw [rest, Nat.div_eq_of_lt hlen, Nat.zero_mul, List.drop_zero]

theorem rest_of_le {m : List α} (hn : 0 < n) (hlen : n ≤ m.length) : rest n m = rest n (m.drop n) := by
  have hdiv : m.length / n = (m.length - n) / n + 1 := Nat.div_eq_sub_div hn hlen
  rw [rest, rest, List.drop_drop, List.length_drop, hdiv, Nat.succ_mul, Nat.add_comm]

/-- **When nothing waits, the blocks of a part are handled and the rest of it waits.** -/
theorem absorb_whole (hn : 0 < n) (h : σ) (m : List α) :
    absorb n block (h, []) m = (blocks n block h m, rest n m) := by
  induction hk : m.length using Nat.strongRecOn generalizing h m with
  | ind k ih =>
    by_cases hlen : m.length < n
    · rw [absorb_of_lt (by simpa using hlen), blocks_of_lt hlen, rest_of_lt hlen, List.nil_append]
    · have hle := Nat.le_of_not_lt hlen
      have htake : (m.take n).length = n := by rw [List.length_take, Nat.min_eq_left hle]
      have hne : m.take n ≠ [] := List.ne_nil_of_length_pos (by omega)
      have hone : absorb n block (h, []) (m.take n) = (block h (m.take n), []) :=
        absorb_of_eq hne (by rw [List.length_nil, Nat.zero_add, htake])
      have hdrop : (m.drop n).length < k := by rw [List.length_drop]; omega
      rw [blocks_of_le hn hle, rest_of_le hn hle, ← ih _ hdrop _ (m.drop n) rfl, ← hone, ← absorb_append,
        List.take_append_drop]

/-- The same, as a program does it: the whole blocks are cut off the part. -/
theorem absorb_split (hn : 0 < n) (h : σ) (m : List α) : absorb n block (h, []) m =
    (blocks n block h (m.take (m.length / n * n)), m.drop (m.length / n * n)) := by
  have hmod : m.length / n * n + m.length % n = m.length := Nat.div_add_mod' m.length n
  have hlt := Nat.mod_lt m.length hn
  have htake : (m.take (m.length / n * n)).length = m.length / n * n := by
    rw [List.length_take]
    omega
  have hrest : rest n (m.take (m.length / n * n)) = [] := by
    refine List.drop_of_length_le (Nat.le_of_eq ?_)
    rw [htake, Nat.mul_div_cancel _ hn]
  have hdrop : ([] : List α).length + (m.drop (m.length / n * n)).length < n := by
    rw [List.length_nil, List.length_drop]
    omega
  calc absorb n block (h, []) m
      = absorb n block (absorb n block (h, []) (m.take (m.length / n * n))) (m.drop (m.length / n * n)) := by
        rw [← absorb_append, List.take_append_drop]
    _ = (blocks n block h (m.take (m.length / n * n)), m.drop (m.length / n * n)) := by
        rw [absorb_whole hn, hrest, absorb_of_lt hdrop, List.nil_append]

end Blocks
