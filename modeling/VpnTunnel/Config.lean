/-!
# Error codes

The negative `errno` values that the functions of `src/` return.
-/

namespace VpnTunnel

/-- The error codes. A function that returns `0` or a length on success and a negative code on failure
is modelled as one that returns `Except Errno`. -/
inductive Errno where
  /-- Bad arguments. -/
  | einval
  /-- A malformed or unauthenticated message. -/
  | ebadmsg
  /-- A buffer or a table that is too small. -/
  | enospc
  /-- A cryptographic operation that failed. -/
  | efault
  /-- A public key that is not in the peer table. -/
  | eacces
  /-- A packet that is too long. -/
  | emsgsize
  /-- An address family that is not supported. -/
  | eafnosupport
  deriving DecidableEq, Repr

/-- A step that may fail, followed by the rest: both have succeeded. -/
theorem bind_eq_ok {α γ : Type} {x : Except Errno α} {f : α → Except Errno γ} {r : γ} :
    (x >>= f) = .ok r ↔ ∃ a, x = .ok a ∧ f a = .ok r := by
  cases x <;> simp [bind, Except.bind]

/-- Steps that differ in what is made of the result, after the same first step. -/
theorem bind_eq_map {α γ δ : Type} {x : Except Errno α} {f : α → Except Errno γ} {f' : α → Except Errno δ} {g : γ → δ}
    (h : ∀ a, f' a = (f a).map g) : (x >>= f') = (x >>= f).map g := by
  cases x with
  | error e => rfl
  | ok a => exact h a

/-- Such steps after first steps that differ in their result too. -/
theorem map_bind_eq_map {α α' γ δ : Type} {x : Except Errno α} {k : α → α'} {f : α → Except Errno γ}
    {f' : α' → Except Errno δ} {g : γ → δ} (h : ∀ a, f' (k a) = (f a).map g) : (x.map k >>= f') = (x >>= f).map g := by
  cases x with
  | error e => rfl
  | ok a => exact h a

/-- Changing the code of an error changes no success. -/
theorem mapError_eq_ok {α : Type} {x : Except Errno α} {f : Errno → Errno} {a : α} :
    x.mapError f = .ok a ↔ x = .ok a := by
  cases x with
  | error e => exact ⟨nofun, nofun⟩
  | ok b => exact Iff.rfl

/-- What is asked of a result is asked of one value, or of none. -/
instance Except.decidableForallOk {α : Type} {P : α → Prop} [DecidablePred P] :
    (x : Except Errno α) → Decidable (∀ a, x = .ok a → P a)
  | .ok a => decidable_of_iff (P a) ⟨fun h b hb => by cases hb; exact h, fun h => h a rfl⟩
  | .error _ => isTrue fun _ h => by cases h

end VpnTunnel
