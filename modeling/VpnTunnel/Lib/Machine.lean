import Mathlib.Data.List.Basic

/-!
# Machines that read inputs and put out effects

A machine takes one step per input; a step changes the state and puts out a list of effects, the
things an observer sees it do. The trace of a run is everything put out, in order.

What holds along a run is proved one step at a time (`run_invariant`): an invariant relates the
trace so far to the state reached, and each step may be assumed to meet a guard, a condition on the
trace so far, the state and the input (`Along`). Two machines are compared by a simulation
(`simulates`).
-/

namespace Machine

variable {σ ι ω : Type} (step : σ → ι → σ × List ω)

/-- Run a machine: the state reached and the trace. -/
def run : σ → List ι → σ × List ω
  | s, [] => (s, [])
  | s, i :: is => ((run (step s i).1 is).1, (step s i).2 ++ (run (step s i).1 is).2)

@[simp] theorem run_nil (s : σ) : run step s [] = (s, []) := rfl

@[simp] theorem run_cons (s : σ) (i : ι) (is : List ι) : run step s (i :: is) =
    ((run step (step s i).1 is).1, (step s i).2 ++ (run step (step s i).1 is).2) := rfl

/-- A run of two lists of inputs is a run of the first, then a run of the second. -/
theorem run_append (s : σ) (is js : List ι) : run step s (is ++ js) =
    ((run step (run step s is).1 js).1, (run step s is).2 ++ (run step (run step s is).1 js).2) := by
  induction is generalizing s with
  | nil => rfl
  | cons i is ih => simp [ih]

/-- The state after one more input. -/
theorem fst_run_concat (s : σ) (is : List ι) (i : ι) :
    (run step s (is ++ [i])).1 = (step (run step s is).1 i).1 := by
  rw [run_append, run_cons, run_nil]

/-- What is in the trace was put out by a step of the run. -/
theorem mem_run {s : σ} {is : List ι} {x : ω} : x ∈ (run step s is).2 ↔
    ∃ pre i post, is = pre ++ i :: post ∧ x ∈ (step (run step s pre).1 i).2 := by
  induction is generalizing s with
  | nil => simp
  | cons i is ih =>
    rw [run_cons, List.mem_append, ih]
    constructor
    · rintro (hx | ⟨pre, j, post, rfl, hx⟩)
      · exact ⟨[], i, is, rfl, hx⟩
      · exact ⟨i :: pre, j, post, rfl, hx⟩
    · rintro ⟨pre, j, post, heq, hx⟩
      cases pre with
      | nil =>
        cases heq
        exact .inl hx
      | cons k pre =>
        cases heq
        exact .inr ⟨pre, j, post, rfl, hx⟩

/-- Every step of the run meets the guard `G`, on the trace so far (after `past`), the state and the input. -/
def Along (G : List ω → σ → ι → Prop) : List ω → σ → List ι → Prop
  | _, _, [] => True
  | past, s, i :: is => G past s i ∧ Along G (past ++ (step s i).2) (step s i).1 is

instance Along.instDecidable {G : List ω → σ → ι → Prop} [∀ past s i, Decidable (G past s i)] :
    ∀ past s is, Decidable (Along step G past s is)
  | _, _, [] => isTrue trivial
  | past, s, i :: is =>
    have := Along.instDecidable (G := G) (past ++ (step s i).2) (step s i).1 is
    inferInstanceAs (Decidable (G past s i ∧ Along step G (past ++ (step s i).2) (step s i).1 is))

theorem run_invariant_from {G : List ω → σ → ι → Prop} {I : List ω → σ → Prop}
    (hstep : ∀ past s i, G past s i → I past s → I (past ++ (step s i).2) (step s i).1)
    (past : List ω) (s : σ) (is : List ι) (hG : Along step G past s is) (h : I past s) :
    I (past ++ (run step s is).2) (run step s is).1 := by
  induction is generalizing past s with
  | nil => simpa using h
  | cons i is ih =>
    obtain ⟨hi, his⟩ := hG
    simpa [List.append_assoc] using ih _ _ his (hstep past s i hi h)

/-- **What each guarded step preserves holds along every guarded run.** -/
theorem run_invariant {G : List ω → σ → ι → Prop} {I : List ω → σ → Prop}
    (hstep : ∀ past s i, G past s i → I past s → I (past ++ (step s i).2) (step s i).1)
    {s : σ} {is : List ι} (hG : Along step G [] s is) (h : I [] s) : I (run step s is).2 (run step s is).1 :=
  run_invariant_from step hstep [] s is hG h

/-- The guard is met along a run when it is met wherever the run comes to. -/
theorem along_iff {G : List ω → σ → ι → Prop} {past : List ω} {s : σ} {is : List ι} : Along step G past s is ↔
    ∀ pre i post, is = pre ++ i :: post → G (past ++ (run step s pre).2) (run step s pre).1 i := by
  induction is generalizing past s with
  | nil => simp [Along]
  | cons i is ih =>
    rw [Along, ih]
    constructor
    · rintro ⟨hi, his⟩ pre j post heq
      cases pre with
      | nil =>
        cases heq
        simpa using hi
      | cons k pre =>
        cases heq
        simpa using his pre j post rfl
    · intro h
      refine ⟨by simpa using h [] i is rfl, fun pre j post heq => ?_⟩
      simpa using h (i :: pre) j post (by rw [heq, List.cons_append])

/-- A guard that asks for nothing is met. -/
theorem along_true (past : List ω) (s : σ) (is : List ι) : Along step (fun _ _ _ => True) past s is := by
  induction is generalizing past s with
  | nil => exact trivial
  | cons i is ih => exact ⟨trivial, ih _ _⟩

/-- **What each step preserves holds along every run.** -/
theorem run_invariant_of_step {I : List ω → σ → Prop}
    (hstep : ∀ past s i, I past s → I (past ++ (step s i).2) (step s i).1) {s : σ} (is : List ι) (h : I [] s) :
    I (run step s is).2 (run step s is).1 :=
  run_invariant step (fun past s i _ => hstep past s i) (along_true step [] s is) h

/-- **What each guarded step preserves as long as the trace has `P`** holds along every guarded run whose
trace has `P`, if a trace that has `P` had it all along. -/
theorem run_invariant_while {G : List ω → σ → ι → Prop} {I : List ω → σ → Prop} {P : List ω → Prop}
    (hP : ∀ past effects, P (past ++ effects) → P past)
    (hstep : ∀ past s i, G past s i → P (past ++ (step s i).2) → I past s → I (past ++ (step s i).2) (step s i).1)
    {s : σ} {is : List ι} (hG : Along step G [] s is) (h : I [] s) (hrun : P (run step s is).2) :
    I (run step s is).2 (run step s is).1 :=
  run_invariant step (I := fun trace s => P trace → I trace s)
    (fun past s i hi hinv hp => hstep past s i hi hp (hinv (hP past _ hp))) hG (fun _ => h) hrun

/-! ### Simulation -/

/-- What each step of a run puts out. -/
def outputs : σ → List ι → List (List ω)
  | _, [] => []
  | s, i :: is => (step s i).2 :: outputs (step s i).1 is

@[simp] theorem length_outputs (s : σ) (is : List ι) : (outputs step s is).length = is.length := by
  induction is generalizing s with
  | nil => rfl
  | cons i is ih => rw [outputs, List.length_cons, ih, List.length_cons]

theorem outputs_append (s : σ) (is js : List ι) :
    outputs step s (is ++ js) = outputs step s is ++ outputs step (run step s is).1 js := by
  induction is generalizing s with
  | nil => rfl
  | cons i is ih => simp [outputs, ih]

/-- **A machine that simulates another one step by step**, on inputs of some kind, puts out the same at
each step, and ends in a state that corresponds. -/
theorem simulates {τ : Type} {step' : τ → ι → τ × List ω} {R : σ → τ → Prop} {P : ι → Prop}
    (h : ∀ s t i, P i → R s t → (step s i).2 = (step' t i).2 ∧ R (step s i).1 (step' t i).1)
    {s : σ} {t : τ} {is : List ι} (hP : ∀ i ∈ is, P i) (hR : R s t) :
    outputs step s is = outputs step' t is ∧ R (run step s is).1 (run step' t is).1 := by
  induction is generalizing s t with
  | nil => exact ⟨rfl, hR⟩
  | cons i is ih =>
    obtain ⟨hout, hnext⟩ := h s t i (hP i List.mem_cons_self) hR
    obtain ⟨houts, hlast⟩ := ih (fun j hj => hP j (List.mem_cons_of_mem i hj)) hnext
    exact ⟨by rw [outputs, outputs, hout, houts], hlast⟩

/-- What a run puts out is what its steps put out. -/
theorem flatten_outputs (s : σ) (is : List ι) : (outputs step s is).flatten = (run step s is).2 := by
  induction is generalizing s with
  | nil => rfl
  | cons i is ih => rw [outputs, List.flatten_cons, ih, run_cons]

/-- **A machine that simulates another one for `N` steps**, on steps that meet a guard: `R` may depend on how
many steps were taken. -/
theorem simulates_along {τ : Type} {step' : τ → ι → τ × List ω} {G : List ω → σ → ι → Prop} {R : ℕ → σ → τ → Prop}
    {N : ℕ} (h : ∀ n past s t i, n < N → G past s i → R n s t →
      (step s i).2 = (step' t i).2 ∧ R (n + 1) (step s i).1 (step' t i).1)
    {n : ℕ} {past : List ω} {s : σ} {t : τ} {is : List ι} (hN : n + is.length ≤ N) (hG : Along step G past s is)
    (hR : R n s t) :
    outputs step s is = outputs step' t is ∧ R (n + is.length) (run step s is).1 (run step' t is).1 := by
  induction is generalizing n past s t with
  | nil => exact ⟨rfl, hR⟩
  | cons i is ih =>
    rw [List.length_cons] at hN ⊢
    obtain ⟨hi, his⟩ := hG
    obtain ⟨hout, hnext⟩ := h n past s t i (by omega) hi hR
    obtain ⟨houts, hlast⟩ := ih (by omega) his hnext
    refine ⟨by rw [outputs, outputs, hout, houts], ?_⟩
    rw [← Nat.add_right_comm, Nat.add_assoc] at hlast
    exact hlast

/-! ### What is seen of a machine -/

/-- The machine, of which only the steps on some inputs are seen. -/
def restrict (seen : ι → Bool) (s : σ) (i : ι) : σ × List ω := ((step s i).1, if seen i then (step s i).2 else [])

/-- It comes to the same states. -/
theorem fst_run_restrict (seen : ι → Bool) (s : σ) (is : List ι) :
    (run (restrict step seen) s is).1 = (run step s is).1 := by
  induction is generalizing s with
  | nil => rfl
  | cons i is ih => rw [run_cons, run_cons, ih]; rfl

/-- So its steps meet the guards on states and inputs. -/
theorem along_restrict {seen : ι → Bool} {G : σ → ι → Prop} {past past' : List ω} {s : σ} {is : List ι}
    (h : Along step (fun _ s i => G s i) past s is) :
    Along (restrict step seen) (fun _ s i => G s i) past' s is := by
  induction is generalizing past past' s with
  | nil => exact trivial
  | cons i is ih => exact ⟨h.1, ih h.2⟩

/-- **Inputs that do nothing can be left out.** -/
theorem run_filter {I : σ → Prop} {seen : ι → Bool} (hkeep : ∀ s i, I s → I (step s i).1)
    (hidle : ∀ s i, I s → seen i = false → step s i = (s, [])) {s : σ} (h : I s) (is : List ι) :
    run step s (is.filter seen) = run step s is := by
  induction is generalizing s with
  | nil => rfl
  | cons i is ih =>
    cases hi : seen i with
    | true => rw [List.filter_cons_of_pos hi, run_cons, run_cons, ih (hkeep s i h)]
    | false =>
      rw [List.filter_cons_of_neg (by rw [hi]; exact Bool.false_ne_true), ih h, run_cons, hidle s i h hi]
      rfl

end Machine
