import Mathlib.Data.List.Basic

/-!
# Local buffers and what is left in them

A procedure of C keeps values in local buffers, and when it returns they stay in memory until something else is
written there. This module is about which of them do: a procedure reads and writes named buffers, each write says
whether what it writes is a secret, and a run that ends, with a result or with an error, leaves a frame behind.

## The model

A frame is what was in the buffers when the call began, which may be anything, and the writes since then, the last
one first. From these the contents of a buffer follow (`Frame.contents`), and which buffers have held a secret at any
time (`held`). A frame is wiped if all of these are zero. `Proc` is the monad of procedures: an error ends the run,
and keeps the frame.

## The rules

For each operation there is a rule that says what a procedure returns that begins with it (`result_…_bind`) and one
that says which frame it leaves (`leaves_…_bind`); a procedure is run symbolically by rewriting with them. They hold by
computation, but their proofs are written `(rfl)`: as definitional equations `simp` would leave it to the kernel to
unfold whole runs at once.

## What is proved

* `Frame.wiped_iff` — it is enough to look at the secrets written since a buffer was last wiped, and which these are
  can be read off the writes without their values.
-/

namespace Scratch

/-- A write to a buffer. -/
inductive Op (L V κ : Type) where
  /-- A value is put into the buffer `x`. If it is a secret, the label says which. -/
  | store (x : L) (label : Option κ) (v : V)
  /-- The buffer `x` is overwritten with zeros. -/
  | memzero (x : L)

/-- A write without the value. -/
inductive Mark (L κ : Type) where
  /-- Something was put into `x`. -/
  | store (x : L) (label : Option κ)
  /-- The buffer `x` was wiped. -/
  | memzero (x : L)

/-- The local buffers of a call. -/
structure Frame (L V κ : Type) where
  /-- What was there before. -/
  stack : L → V
  /-- What has been written, the last write first. -/
  writes : List (Op L V κ)

/-- The procedures over such buffers. -/
abbrev Proc (L V κ ε : Type) := ExceptT ε (StateM (Frame L V κ))

variable {L V κ ε α γ : Type}

/-- The frame of a call that begins. -/
def Frame.fresh (stack : L → V) : Frame L V κ := ⟨stack, []⟩

/-- One more write. -/
def Frame.write (f : Frame L V κ) (op : Op L V κ) : Frame L V κ := ⟨f.stack, op :: f.writes⟩

/-- What a write does, whatever the value is. -/
@[simp]
def Op.mark : Op L V κ → Mark L κ
  | .store x label _ => .store x label
  | .memzero x => .memzero x

/-- The writes without their values. -/
def Frame.marks (f : Frame L V κ) : List (Mark L κ) := f.writes.map Op.mark

@[simp]
theorem Frame.marks_fresh (stack : L → V) : (fresh stack : Frame L V κ).marks = [] := (rfl)

@[simp]
theorem Frame.marks_write (f : Frame L V κ) (op : Op L V κ) : (f.write op).marks = op.mark :: f.marks := (rfl)

/-! ### Contents -/

section

variable [DecidableEq L]

/-- What a buffer contains after some writes. -/
def contentsAfter [Zero V] (stack : L → V) : List (Op L V κ) → L → V
  | [], x => stack x
  | .store y _ v :: ops, x => if y = x then v else contentsAfter stack ops x
  | .memzero y :: ops, x => if y = x then 0 else contentsAfter stack ops x

/-- The buffers a secret was ever put into. -/
def held : List (Mark L κ) → List L
  | [] => []
  | .store x (some _) :: ms => (held ms).insert x
  | .store _ none :: ms => held ms
  | .memzero _ :: ms => held ms

/-- The buffers that were written and not wiped after that. -/
def unwiped : List (Mark L κ) → List L
  | [] => []
  | .store x _ :: ms => (unwiped ms).insert x
  | .memzero x :: ms => (unwiped ms).filter (· ≠ x)

/-- The buffers that held a secret and were not wiped after their last write. -/
def leaks (ms : List (Mark L κ)) : List L := (held ms).filter (· ∈ unwiped ms)

variable [Zero V]

namespace Frame

/-- What a buffer contains. -/
def contents (f : Frame L V κ) (x : L) : V := contentsAfter f.stack f.writes x

/-- Every buffer that held a secret at any time is all zero. -/
def Wiped (f : Frame L V κ) : Prop := ∀ x ∈ held f.marks, f.contents x = 0

instance [DecidableEq V] (f : Frame L V κ) : Decidable f.Wiped :=
  inferInstanceAs (Decidable (∀ x ∈ held f.marks, f.contents x = 0))

@[simp]
theorem contents_write_store (f : Frame L V κ) (y x : L) (label : Option κ) (v : V) :
    (f.write (.store y label v)).contents x = if y = x then v else f.contents x := (rfl)

@[simp]
theorem contents_write_memzero (f : Frame L V κ) (y x : L) :
    (f.write (.memzero y)).contents x = if y = x then 0 else f.contents x := (rfl)

end Frame

/-- A buffer that held a secret and was wiped after its last write is zero. -/
theorem contentsAfter_eq_zero (stack : L → V) {ops : List (Op L V κ)} {x : L} (hheld : x ∈ held (ops.map Op.mark))
    (hwiped : x ∉ unwiped (ops.map Op.mark)) : contentsAfter stack ops x = 0 := by
  induction ops with
  | nil => cases hheld
  | cons op ops ih =>
    cases op with
    | store y label v =>
      have hne : x ≠ y ∧ x ∉ unwiped (ops.map Op.mark) := by
        simpa only [List.map_cons, Op.mark, unwiped, List.mem_insert_iff, not_or] using hwiped
      have hheld' : x ∈ held (ops.map Op.mark) := by
        cases label with
        | none => exact hheld
        | some _ => exact (List.mem_insert_iff.mp hheld).resolve_left hne.1
      rw [contentsAfter, if_neg (Ne.symm hne.1)]
      exact ih hheld' hne.2
    | memzero y =>
      rw [contentsAfter]
      split
      case isTrue => rfl
      case isFalse hne =>
        refine ih hheld fun hmem => hwiped ?_
        exact List.mem_filter.mpr ⟨hmem, decide_eq_true (Ne.symm hne)⟩

namespace Frame

variable {f : Frame L V κ}

/-- A frame is wiped if the buffers that leak are zero. -/
theorem wiped_iff : f.Wiped ↔ ∀ x ∈ leaks f.marks, f.contents x = 0 := by
  constructor
  · exact fun h x hx => h x (List.mem_of_mem_filter hx)
  · intro h x hx
    by_cases hmem : x ∈ unwiped f.marks
    · exact h x (List.mem_filter.mpr ⟨hx, decide_eq_true hmem⟩)
    · exact contentsAfter_eq_zero f.stack hx hmem

/-- Nothing leaks. -/
theorem wiped_of_leaks_eq_nil (h : leaks f.marks = []) : f.Wiped := by
  rw [wiped_iff, h]
  exact List.forall_mem_nil _

/-- One buffer leaks: all is well only if there is nothing in it. -/
theorem wiped_iff_of_leaks_eq {x : L} (h : leaks f.marks = [x]) : f.Wiped ↔ f.contents x = 0 := by
  rw [wiped_iff, h, List.forall_mem_singleton]

end Frame

end

/-! ### Procedures -/

/-- What is in a buffer. -/
def load [DecidableEq L] [Zero V] (x : L) : Proc L V κ ε V := fun f => (.ok (f.contents x), f)

/-- Put a value into a buffer. -/
def store (x : L) (label : Option κ) (v : V) : Proc L V κ ε Unit := fun f => (.ok (), f.write (.store x label v))

/-- Wipe a buffer. -/
def memzero (x : L) : Proc L V κ ε Unit := fun f => (.ok (), f.write (.memzero x))

/-- Wipe some buffers, and end with an error. -/
def wipeAndThrow (e : ε) : List L → Proc L V κ ε α
  | [] => throw e
  | x :: xs => do
    memzero x
    wipeAndThrow e xs

/-- A result or an error that does not depend on the buffers. -/
def lift (r : Except ε α) : Proc L V κ ε α := fun f => (r, f)

/-- Run a procedure: its result or error, and the frame it leaves. -/
def exec (p : Proc L V κ ε α) (f : Frame L V κ) : Except ε α × Frame L V κ := p f

/-- The result of a run. -/
def result (p : Proc L V κ ε α) (f : Frame L V κ) : Except ε α := (exec p f).1

/-- A run leaves a frame that satisfies `Q`, whether it ends with a result or with an error. -/
def Leaves (p : Proc L V κ ε α) (f : Frame L V κ) (Q : Frame L V κ → Prop) : Prop := Q (exec p f).2

section

variable (f : Frame L V κ) (Q : Frame L V κ → Prop) (x : L) (label : Option κ) (v : V) (a : α) (e : ε)
  (r : Except ε α) (c : Prop) [Decidable c] (p q : Proc L V κ ε α)

/-! ### What a procedure returns -/

@[simp]
theorem result_pure : result (pure a : Proc L V κ ε α) f = pure a := (rfl)

@[simp]
theorem result_throw : result (throw e : Proc L V κ ε α) f = .error e := (rfl)

@[simp]
theorem result_lift_bind (k : α → Proc L V κ ε γ) : result (lift r >>= k) f = r >>= fun a => result (k a) f := by
  cases r <;> rfl

@[simp]
theorem result_load_bind [DecidableEq L] [Zero V] (k : V → Proc L V κ ε α) :
    result (load x >>= k) f = result (k (f.contents x)) f := (rfl)

@[simp]
theorem result_store_bind (k : Unit → Proc L V κ ε α) :
    result (store x label v >>= k) f = result (k ()) (f.write (.store x label v)) := (rfl)

@[simp]
theorem result_memzero_bind (k : Unit → Proc L V κ ε α) :
    result (memzero x >>= k) f = result (k ()) (f.write (.memzero x)) := (rfl)

@[simp]
theorem result_ite : result (if c then p else q) f = if c then result p f else result q f := by
  split <;> rfl

/-- The error of a procedure that wipes and ends. -/
theorem result_wipeAndThrow_bind (xs : List L) (k : α → Proc L V κ ε γ) :
    result (wipeAndThrow e xs >>= k) f = .error e := by
  induction xs generalizing f with
  | nil => rfl
  | cons x xs ih => exact ih (f.write (.memzero x))

/-! ### What a procedure leaves -/

@[simp]
theorem leaves_pure : Leaves (pure a : Proc L V κ ε α) f Q ↔ Q f := (Iff.rfl)

@[simp]
theorem leaves_throw : Leaves (throw e : Proc L V κ ε α) f Q ↔ Q f := (Iff.rfl)

@[simp]
theorem leaves_lift_bind (k : α → Proc L V κ ε γ) :
    Leaves (lift r >>= k) f Q ↔ (∀ e, r = .error e → Q f) ∧ ∀ a, r = .ok a → Leaves (k a) f Q := by
  cases r with
  | error e =>
    have hrun : Leaves (lift (.error e) >>= k) f Q ↔ Q f := (Iff.rfl)
    simp [hrun]
  | ok a =>
    have hrun : Leaves (lift (.ok a) >>= k) f Q ↔ Leaves (k a) f Q := (Iff.rfl)
    simp [hrun]

@[simp]
theorem leaves_load_bind [DecidableEq L] [Zero V] (k : V → Proc L V κ ε α) :
    Leaves (load x >>= k) f Q ↔ Leaves (k (f.contents x)) f Q := (Iff.rfl)

@[simp]
theorem leaves_store_bind (k : Unit → Proc L V κ ε α) :
    Leaves (store x label v >>= k) f Q ↔ Leaves (k ()) (f.write (.store x label v)) Q := (Iff.rfl)

@[simp]
theorem leaves_memzero_bind (k : Unit → Proc L V κ ε α) :
    Leaves (memzero x >>= k) f Q ↔ Leaves (k ()) (f.write (.memzero x)) Q := (Iff.rfl)

@[simp]
theorem leaves_ite : Leaves (if c then p else q) f Q ↔ (c → Leaves p f Q) ∧ (¬ c → Leaves q f Q) := by
  by_cases hc : c <;> simp [hc]

/-- The frame of a procedure that wipes and ends. -/
theorem leaves_wipeAndThrow_bind (xs : List L) (k : α → Proc L V κ ε γ) :
    Leaves (wipeAndThrow e xs >>= k) f Q ↔ Q (xs.foldl (fun f x => f.write (.memzero x)) f) := by
  induction xs generalizing f with
  | nil => exact Iff.rfl
  | cons x xs ih => exact ih (f.write (.memzero x))

end

end Scratch
