import Mathlib.Data.List.Basic

/-!
# Programs that make calls

A program returns, or makes a call and goes on with the answer (`Prog`). The other side, a kernel, is a relation: in
which state which call may get which answer, and what its state is then (`Kernel`). So a program is run against
every kernel that keeps to the relation, and an execution is followed call by call (`Exec`).

`Meets K G p Q s` says that `p`, started while the kernel is in state `s`, makes only calls that `G` allows, and
has `Q` when it returns. It is a weakest precondition, so its rules are equivalences, one for each way to make a
program (`meets_pure`, `meets_bind`, `meets_make`), and it says what it should of every execution (`Meets.exec`,
`Meets.allowed`).

## Resources

Some calls hand out a resource, some use one, and some give one back (`Resources`). The kernel that keeps the list
of what is held hands out nothing twice (`Resources.kernel`), and a call is allowed that only uses what is held, and
is of some kind (`Resources.Owned`).
-/

namespace Calls

/-- A program that makes calls `c : κ`, each of which is answered by an `r : ρ c`. -/
inductive Prog (κ : Type) (ρ : κ → Type) (α : Type) : Type where
  /-- It returns. -/
  | ret (a : α)
  /-- It makes a call, and goes on with the answer. -/
  | call (c : κ) (next : ρ c → Prog κ ρ α)

/-- What a call may be answered, and the state of the kernel after it. -/
abbrev Kernel (κ : Type) (ρ : κ → Type) (σ : Type) : Type := σ → (c : κ) → ρ c → σ → Prop

variable {κ : Type} {ρ : κ → Type} {σ α γ : Type}

namespace Prog

/-- One program after another. -/
def bind : Prog κ ρ α → (α → Prog κ ρ γ) → Prog κ ρ γ
  | .ret a, f => f a
  | .call c next, f => .call c fun r => (next r).bind f

instance : Monad (Prog κ ρ) where
  pure := .ret
  bind := .bind

/-- The program that makes one call. -/
def make (c : κ) : Prog κ ρ (ρ c) := .call c .ret

end Prog

/-! ### Executions -/

/-- Executions, not necessarily to the end: the calls that were made with their answers, the state of the kernel,
and what is left of the program. -/
inductive Exec (K : Kernel κ ρ σ) : σ → Prog κ ρ α → List ((c : κ) × ρ c) → σ → Prog κ ρ α → Prop
  /-- Nothing was done. -/
  | here (s : σ) (p : Prog κ ρ α) : Exec K s p [] s p
  /-- A call was answered. -/
  | answered {s s' t : σ} {c : κ} {r : ρ c} {next : ρ c → Prog κ ρ α} {calls : List ((c : κ) × ρ c)}
      {q : Prog κ ρ α} (hanswer : K s c r s') (hrest : Exec K s' (next r) calls t q) :
      Exec K s (.call c next) (⟨c, r⟩ :: calls) t q

/-- One program after another: the second one starts where the first one has returned. -/
theorem Exec.bind {K : Kernel κ ρ σ} {s t u : σ} {p : Prog κ ρ α} {a : α} {f : α → Prog κ ρ γ} {q : Prog κ ρ γ}
    {calls calls' : List ((c : κ) × ρ c)} (h : Exec K s p calls t (.ret a)) (hrest : Exec K t (f a) calls' u q) :
    Exec K s (p >>= f) (calls ++ calls') u q := by
  generalize hp : Prog.ret a = r at h
  induction h with
  | here s p =>
    subst hp
    exact hrest
  | answered hanswer _ ih => exact .answered hanswer (ih hrest hp)

/-! ### What a program meets -/

/-- The program makes only calls that are allowed, and when it returns, `Q` holds of what it returns and of the
state of the kernel. -/
def Meets (K : Kernel κ ρ σ) (G : σ → κ → Prop) : Prog κ ρ α → (α → σ → Prop) → σ → Prop
  | .ret a, Q, s => Q a s
  | .call c next, Q, s => G s c ∧ ∀ r s', K s c r s' → Meets K G (next r) Q s'

section

variable {K : Kernel κ ρ σ} {G : σ → κ → Prop} {p : Prog κ ρ α} {Q Q' : α → σ → Prop} {s t : σ}
  {calls : List ((c : κ) × ρ c)} {q : Prog κ ρ α}

@[simp] theorem meets_pure {a : α} : Meets K G (pure a : Prog κ ρ α) Q s ↔ Q a s := Iff.rfl

@[simp] theorem meets_make {c : κ} {Q : ρ c → σ → Prop} :
    Meets K G (.make c) Q s ↔ G s c ∧ ∀ r s', K s c r s' → Q r s' := Iff.rfl

/-- **Sequencing**: the first program has to lead to where the second one meets what is asked for. -/
@[simp] theorem meets_bind {f : α → Prog κ ρ γ} {Q : γ → σ → Prop} :
    Meets K G (p >>= f) Q s ↔ Meets K G p (fun a s => Meets K G (f a) Q s) s := by
  induction p generalizing s with
  | ret a => exact Iff.rfl
  | call c next ih => exact and_congr_right fun _ => forall₂_congr fun r s' => imp_congr_right fun _ => ih r

theorem Meets.mono (h : Meets K G p Q s) (hQ : ∀ a s, Q a s → Q' a s) : Meets K G p Q' s := by
  induction p generalizing s with
  | ret a => exact hQ a s h
  | call c next ih => exact ⟨h.1, fun r s' hr => ih r (h.2 r s' hr)⟩

/-- **A program for each entry of a list**: an invariant says what holds when some entries are done. -/
theorem Meets.forM {ι : Type} {f : ι → Prog κ ρ PUnit} {I : List ι → σ → Prop} {xs : List ι} (hs : I [] s)
    (hf : ∀ pre x post, xs = pre ++ x :: post → ∀ s, I pre s → Meets K G (f x) (fun _ => I (pre ++ [x])) s) :
    Meets K G (xs.forM f) (fun _ => I xs) s := by
  induction xs generalizing s I with
  | nil => exact hs
  | cons x xs ih =>
    refine meets_bind.mpr ((hf [] x xs rfl s hs).mono fun _ s hs => ?_)
    refine ih (I := fun pre => I (x :: pre)) hs fun pre y post heq => ?_
    exact hf (x :: pre) y post (congrArg (x :: ·) heq)

/-- **What is left of a program that meets a specification meets it**, wherever an execution stands. -/
theorem Meets.exec (h : Meets K G p Q s) (hexec : Exec K s p calls t q) : Meets K G q Q t := by
  induction hexec with
  | here s p => exact h
  | answered hanswer _ ih => exact ih (h.2 _ _ hanswer)

/-- **Every call that was made was allowed** when it was made. -/
theorem Meets.allowed (h : Meets K G p Q s) (hexec : Exec K s p calls t q) : ∀ c ∈ calls, ∃ s, G s c.1 := by
  induction hexec with
  | here s p => exact nofun
  | @answered s _ _ _ _ _ _ _ hanswer _ ih =>
    intro c hc
    rcases List.mem_cons.mp hc with rfl | hc
    · exact ⟨s, h.1⟩
    · exact ih (h.2 _ _ hanswer) c hc

/-- A kernel that answers anything, and keeps the calls and their answers. -/
def record : Kernel κ ρ (List ((c : κ) × ρ c)) := fun past c r past' => past' = past ++ [⟨c, r⟩]

theorem Exec.record (hexec : Exec K s p calls t q) (past : List ((c : κ) × ρ c)) :
    Exec record past p calls (past ++ calls) q := by
  induction hexec generalizing past with
  | here s p =>
    rw [List.append_nil]
    exact .here past p
  | @answered s s' t c r next calls q _ _ ih =>
    rw [List.append_cons]
    exact .answered rfl (ih (past ++ [⟨c, r⟩]))

/-- **What holds of a program and its calls**, against the kernel that records them, holds against every kernel. -/
theorem Meets.of_record {Q : α → List ((c : κ) × ρ c) → Prop} {a : α}
    (h : Meets record (fun _ _ => True) p Q []) (hexec : Exec K s p calls t (.ret a)) : Q a calls :=
  h.exec (hexec.record [])

end

/-! ### Resources -/

/-- What calls have to do with resources. -/
structure Resources (κ : Type) (ρ : κ → Type) (δ : Type) where
  /-- The resources a call is given. -/
  uses : κ → List δ
  /-- The resource it hands out, if it is answered so. -/
  acquired : (c : κ) → ρ c → Option δ
  /-- The resource it gives back. -/
  released : κ → Option δ

namespace Resources

variable {δ : Type} [DecidableEq δ] (R : Resources κ ρ δ) (Valid : δ → Prop)

/-- What is held after a call. -/
def after (held : List δ) (c : κ) (r : ρ c) : List δ :=
  (R.acquired c r).toList ++ match R.released c with
    | some x => held.erase x
    | none => held

/-- A kernel that hands out valid resources that are not held. -/
def kernel : Kernel κ ρ (List δ) := fun held c r held' =>
  (∀ x, R.acquired c r = some x → Valid x ∧ x ∉ held) ∧ held' = R.after held c r

omit [DecidableEq δ] in
/-- A call of some kind, that uses only what is held. -/
def Owned (P : κ → Prop) (held : List δ) (c : κ) : Prop := (∀ x ∈ R.uses c, x ∈ held) ∧ P c

variable {R Valid} {P : κ → Prop} {held : List δ} {c : κ} {Q : ρ c → List δ → Prop}

/-- A call that hands out nothing and gives nothing back. -/
theorem meets_use (hc : R.Owned P held c) (hacquired : ∀ r, R.acquired c r = none) (hreleased : R.released c = none)
    (hQ : ∀ r, Q r held) : Meets (R.kernel Valid) (R.Owned P) (.make c) Q held := by
  refine ⟨hc, ?_⟩
  rintro r held' ⟨-, rfl⟩
  rw [after, hacquired, hreleased]
  exact hQ r

/-- A call that hands out a resource, or does not. -/
theorem meets_acquire (hc : R.Owned P held c) (hreleased : R.released c = none)
    (hQ : ∀ r, (R.acquired c r = none → Q r held) ∧
      ∀ x, R.acquired c r = some x → Valid x → x ∉ held → Q r (x :: held)) :
    Meets (R.kernel Valid) (R.Owned P) (.make c) Q held := by
  refine ⟨hc, ?_⟩
  rintro r held' ⟨hfresh, rfl⟩
  rw [after, hreleased]
  cases hacquired : R.acquired c r with
  | none => exact (hQ r).1 hacquired
  | some x => exact (hQ r).2 x hacquired (hfresh x hacquired).1 (hfresh x hacquired).2

/-- A call that gives a resource back. -/
theorem meets_release {x : δ} (hc : R.Owned P held c) (hacquired : ∀ r, R.acquired c r = none)
    (hreleased : R.released c = some x) (hQ : ∀ r, Q r (held.erase x)) :
    Meets (R.kernel Valid) (R.Owned P) (.make c) Q held := by
  refine ⟨hc, ?_⟩
  rintro r held' ⟨-, rfl⟩
  rw [after, hacquired, hreleased]
  exact hQ r

end Resources

end Calls
