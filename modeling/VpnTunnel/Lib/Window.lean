import Mathlib.Order.Bounds.Basic
import Mathlib.Data.Set.Insert
import Mathlib.Order.Lattice.Nat

/-!
# The ideal sliding window

A window of width `w` over the numbers received so far, as a set. It remembers everything, and says
what a filter of bounded memory is for: a number is accepted when it is above the greatest number
received, or within `w` of it and not received yet.
-/

namespace Window

variable {w c m : ℕ} {S : Set ℕ}

/-- The number `c` is accepted once the numbers in `S` have been received. Before anything has been
received there is no greatest number, and everything is accepted. -/
def Accepts (w : ℕ) (S : Set ℕ) (c : ℕ) : Prop :=
  ∀ m, IsGreatest S m → m < c ∨ (m - c < w ∧ c ∉ S)

theorem accepts_empty (w c : ℕ) : Accepts w ∅ c := fun _ h => absurd h.1 (Set.notMem_empty _)

/-- Acceptance is decided by the greatest number received. -/
theorem accepts_iff (h : IsGreatest S m) : Accepts w S c ↔ m < c ∨ (m - c < w ∧ c ∉ S) := by
  constructor
  · intro ha
    exact ha m h
  · intro ha m' h'
    rwa [h'.unique h]

/-- A number received is not accepted again. -/
theorem not_accepts_of_mem (h : IsGreatest S m) (hc : c ∈ S) : ¬ Accepts w S c := by
  rw [accepts_iff h]
  rintro (hlt | ⟨-, hn⟩)
  · exact absurd (h.2 hc) (Nat.not_le.mpr hlt)
  · exact hn hc

/-- The greatest number of a list is the maximum of its items. -/
theorem isGreatest_foldr_max {l : List ℕ} (h : l ≠ []) : IsGreatest {x | x ∈ l} (l.foldr max 0) := by
  induction l with
  | nil => exact absurd rfl h
  | cons a l ih =>
    rcases eq_or_ne l [] with rfl | hl
    · simp [IsGreatest, upperBounds]
    · have hset : {x | x ∈ a :: l} = insert a {x | x ∈ l} := by ext; simp
      rw [hset]
      exact (ih hl).insert a

end Window
