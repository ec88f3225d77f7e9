import VpnTunnel.Lib.Octets

/-!
# Buffers with checked accesses

A program that works in fixed buffers reads and overwrites parts of them. Here each access says whether
it lies inside its buffer: `load` and `save` fail when it does not, so that a program that gives a result
has never left its buffers.

A buffer is larger than what was put there, and behind it stands what was there before. `Begins buf l`
says that the buffer begins with the octets `l`; of the rest nothing is known.

What a program does is shown with a rule for each of its steps (`Yields`): it gives a result, and the
result is as it should be.

A function that is given pointers works in a memory it shares with its caller, the octets at all
addresses (`Heap`): there, two of its buffers may overlap, or be the same one.
-/

namespace Memory

open Octets

variable {α γ β : Type}

/-! ### Programs that may fail -/

/-- The program does not fail, and its result has the property `P`. -/
def Yields (o : Option α) (P : α → Prop) : Prop := ∃ x, o = some x ∧ P x

theorem Yields.some {x : α} {P : α → Prop} (h : P x) : Yields (some x) P := ⟨x, rfl, h⟩

/-- A step and what follows it. -/
theorem Yields.bind {o : Option α} {f : α → Option γ} {P : α → Prop} {Q : γ → Prop} (h : Yields o P)
    (hf : ∀ x, P x → Yields (f x) Q) : Yields (o >>= f) Q := by
  obtain ⟨x, rfl, hx⟩ := h
  exact hf x hx

/-- A step whose result is known, and what follows it. -/
theorem Yields.bind_eq {o : Option α} {f : α → Option γ} {x : α} {Q : γ → Prop} (h : o = Option.some x)
    (hf : Yields (f x) Q) : Yields (o >>= f) Q := by
  subst h
  exact hf

theorem Yields.mono {o : Option α} {P Q : α → Prop} (h : Yields o P) (hPQ : ∀ x, P x → Q x) : Yields o Q := by
  obtain ⟨x, hx, hP⟩ := h
  exact ⟨x, hx, hPQ x hP⟩

/-! ### Buffers -/

variable {m n : ℕ}

/-- Read `n` octets of a buffer from `off`. -/
def load (buf : Bytes β m) (off n : ℕ) : Option (Bytes β n) :=
  if h : off + n ≤ m then some (slice buf.toList off n (by rwa [buf.toList_length])) else none

/-- Overwrite a buffer with `data` from `off`. -/
def save (buf : Bytes β m) (off : ℕ) (data : List β) : Option (Bytes β m) :=
  if h : off + data.length ≤ m then some (store buf off data h) else none

/-- Copy the first `n` octets of one buffer to another one, from `off`. -/
def copy {k : ℕ} (dst : Bytes β m) (off : ℕ) (src : Bytes β k) (n : ℕ) : Option (Bytes β m) := do
  let octets ← load src 0 n
  save dst off octets.toList

/-- The buffer begins with the octets `l`. -/
def Begins (buf : Bytes β m) (l : List β) : Prop := ∃ rest, buf.toList = l ++ rest

theorem begins_nil (buf : Bytes β m) : Begins buf [] := ⟨buf.toList, rfl⟩

theorem Begins.length_le {buf : Bytes β m} {l : List β} (h : Begins buf l) : l.length ≤ m := by
  obtain ⟨rest, hbuf⟩ := h
  have hlen := congrArg List.length hbuf
  rw [buf.toList_length, List.length_append] at hlen
  omega

/-- What the buffer holds is read. -/
theorem Begins.load {buf : Bytes β m} {l : List β} (h : Begins buf l) {off : ℕ} (hin : off + n ≤ l.length) :
    load buf off n = some (slice l off n hin) := by
  have hm := h.length_le
  obtain ⟨rest, hbuf⟩ := h
  rw [Memory.load, dif_pos (by omega : off + n ≤ m)]
  refine congrArg Option.some (List.Vector.eq _ _ ?_)
  have hdrop : off ≤ l.length := by omega
  have htake : n ≤ (l.drop off).length := by rw [List.length_drop]; omega
  simp only [slice, List.Vector.toList_mk, hbuf]
  rw [List.drop_append_of_le_length hdrop, List.take_append_of_le_length htake]

/-- All of what the buffer holds is read. -/
theorem Begins.load_all {buf : Bytes β m} {l : List β} (h : Begins buf l) :
    Memory.load buf 0 l.length = some (ofList l) := by
  rw [h.load (Nat.le_of_eq (Nat.zero_add _))]
  refine congrArg Option.some (List.Vector.eq _ _ ?_)
  rw [slice, List.Vector.toList_mk, List.drop_zero, List.take_length, toList_ofList]

/-- Overwriting what the buffer holds, or the octets right behind it. -/
theorem Begins.save {buf : Bytes β m} {l : List β} (h : Begins buf l) {off : ℕ} {data : List β} (hoff : off ≤ l.length)
    (hin : off + data.length ≤ m) : Yields (save buf off data) (Begins · (writeAt l off data)) := by
  obtain ⟨rest, hbuf⟩ := h
  refine ⟨_, dif_pos hin, rest.drop (off + data.length - l.length), ?_⟩
  rw [toList_store, hbuf, writeAt, writeAt, List.take_append_of_le_length hoff, List.drop_append]
  simp only [List.append_assoc]

/-- Filling a buffer from its start, whatever it held. -/
theorem save_zero (buf : Bytes β m) {data : List β} (h : data.length ≤ m) :
    Yields (Memory.save buf 0 data) (Begins · data) := by
  have hsave := (begins_nil buf).save (Nat.le_refl 0) ((Nat.zero_add _).trans_le h)
  simpa [writeAt] using hsave

/-- Going on behind what the buffer holds. -/
theorem Begins.save_behind {buf : Bytes β m} {l : List β} (h : Begins buf l) {off : ℕ} (hoff : l.length = off)
    {data : List β} (hin : off + data.length ≤ m) : Yields (Memory.save buf off data) (Begins · (l ++ data)) := by
  subst hoff
  have hsave := h.save le_rfl hin
  rwa [writeAt, List.take_length, List.drop_of_length_le (Nat.le_add_right _ _), List.append_nil] at hsave

/-- Copying what one buffer holds behind what another one holds. -/
theorem Begins.copy_behind {k : ℕ} {dst : Bytes β m} {src : Bytes β k} {l data : List β} (h : Begins dst l) {off : ℕ}
    (hoff : l.length = off) (hsrc : Begins src data) (hin : off + data.length ≤ m) :
    Yields (copy dst off src data.length) (Begins · (l ++ data)) := by
  refine Yields.bind_eq hsrc.load_all ?_
  rw [toList_ofList]
  exact h.save_behind hoff hin

/-! ### One memory -/

/-- An octet at each address. -/
abbrev Heap (β : Type) := ℕ → β

/-- Read `n` octets from address `p`. -/
def Heap.read (h : Heap β) (p n : ℕ) : Bytes β n := List.Vector.ofFn fun i => h (p + i)

/-- Overwrite what is at address `p` with `data`. -/
def Heap.write (h : Heap β) (p : ℕ) (data : List β) : Heap β :=
  fun a => if p ≤ a then data.getD (a - p) (h a) else h a

/-- What was written is there. -/
theorem Heap.read_write (h : Heap β) (p : ℕ) (v : Bytes β n) : (h.write p v.toList).read p n = v := by
  refine List.Vector.ext fun i => ?_
  have hi : i.val < v.toList.length := by
    rw [v.toList_length]
    exact i.isLt
  rw [Heap.read, List.Vector.get_ofFn, Heap.write, if_pos (Nat.le_add_right p i), Nat.add_sub_cancel_left,
    List.getD_eq_getElem?_getD, List.getElem?_eq_getElem hi, Option.getD_some, List.Vector.get_eq_get_toList]
  rfl

end Memory
