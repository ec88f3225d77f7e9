import Mathlib.Logic.Relation
import Mathlib.Data.Set.Insert

/-!
# What an observer can find out

An observer knows a set of facts and learns one more at a time. A rule says which facts can be found
in one step from what is known; what can be found at all is what some finite sequence of steps leads
to (`Derives`).

That something cannot be found is shown with a set of facts no rule leads out of: an observer whose
knowledge lies in a closed set never learns anything outside it (`not_derives`).
-/

namespace Deduction

variable {α : Type}

/-- One step: a fact is found and added to what is known. -/
def Step (rule : Set α → α → Prop) (known known' : Set α) : Prop := ∃ x, rule known x ∧ known' = insert x known

/-- A fact that finitely many steps lead to. -/
def Derives (rule : Set α → α → Prop) (known : Set α) (x : α) : Prop :=
  ∃ known', Relation.ReflTransGen (Step rule) known known' ∧ x ∈ known'

/-- A set of facts that no rule leads out of. -/
def Closed (rule : Set α → α → Prop) (safe : Set α) : Prop := ∀ known x, known ⊆ safe → rule known x → x ∈ safe

variable {rule : Set α → α → Prop} {safe known known' : Set α}

/-- One step stays in a closed set. -/
theorem Closed.step (hclosed : Closed rule safe) (h : Step rule known known') (hknown : known ⊆ safe) :
    known' ⊆ safe := by
  obtain ⟨x, hx, rfl⟩ := h
  exact Set.insert_subset (hclosed known x hknown hx) hknown

/-- So do any number of steps. -/
theorem Closed.steps (hclosed : Closed rule safe) (h : Relation.ReflTransGen (Step rule) known known')
    (hknown : known ⊆ safe) : known' ⊆ safe := by
  induction h with
  | refl => exact hknown
  | tail _ hstep ih => exact hclosed.step hstep ih

/-- **What lies outside a closed set cannot be found** from what lies inside. -/
theorem Closed.not_derives (hclosed : Closed rule safe) (hknown : known ⊆ safe) {x : α} (hx : x ∉ safe) :
    ¬ Derives rule known x := by
  rintro ⟨known', hsteps, hmem⟩
  exact hx (hclosed.steps hsteps hknown hmem)

end Deduction
