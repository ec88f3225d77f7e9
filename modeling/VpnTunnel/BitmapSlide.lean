import VpnTunnel.Lib.WordValue
import VpnTunnel.Replay

/-!
# The word loop of the window

`replay_update` moves its window by a loop over the 32 words of the bitmap, "Slide the 2048-bit bitmap to the right
by `diff` bits": to the right if the lowest bit, that of the highest counter, is written first. Here the loop is taken
step by step, with the arrays, the indices and the shifts it has in C, and is shown to be a multiplication by a power
of two.

## The model

`slideLoop` fills `new_bitmap`, which starts as zeros, one word at a time. Indices and shift amounts are `size_t`, so
that a difference below zero would wrap around; an access outside an array and a shift by 64 or more have no result
(`read?`, `write?`, `shl?`, `shr?`). `slide`, which the rest of the development uses, says what each word is without
the loop.

## The argument

Each step is defined, and puts the word that `slideWord` gives in its place (`slideStep_eq`): an index is only taken
from `word_shift` on, and the carry only if there is a bit shift and a word below. So a run of the loop gives `slide`
(`slideLoop_eq`), by induction on how far it has come. `bit_slide` says what that does to the bits, and
`value_of_shifted` what it means for the number.

## What is proved

* `slideLoop_eq` — the loop is defined, and fills in `slide`.
* `slideLoop_is_shift` — it multiplies the bitmap by `2 ^ diff`, modulo `2 ^ 2048`.
-/

namespace VpnTunnel

open WordBits

/-- One turn of the loop of `replay_update`. -/
def slideStep (bitmap : List.Vector (BitVec 64) replayBitmapWords) (wordShift bitShift : BitVec 64)
    (newBitmap : List.Vector (BitVec 64) replayBitmapWords) (i : BitVec 64) :
    Option (List.Vector (BitVec 64) replayBitmapWords) :=
  if i ≥ wordShift then do
    let word ← read? bitmap (i - wordShift).toNat
    let newBitmap ← write? newBitmap i.toNat (← shl? word bitShift.toNat)
    if bitShift > 0 ∧ i > wordShift then
      let below ← read? bitmap (i - wordShift - 1).toNat
      let carry ← shr? below (64 - bitShift).toNat
      write? newBitmap i.toNat ((← read? newBitmap i.toNat) ||| carry)
    else return newBitmap
  else some newBitmap

/-- The loop of `replay_update`, over `i` from 0 to 31: what is then in `new_bitmap`. -/
def slideLoop (bitmap : List.Vector (BitVec 64) replayBitmapWords) (diff : BitVec 64) :
    Option (List.Vector (BitVec 64) replayBitmapWords) :=
  let wordShift := diff / 64
  let bitShift := diff % 64
  (List.range replayBitmapWords).foldlM (fun newBitmap i => slideStep bitmap wordShift bitShift newBitmap (.ofNat 64 i))
    (List.Vector.replicate _ 0)

section

variable {bitmap new : List.Vector (BitVec 64) replayBitmapWords} {wordShift bitShift : BitVec 64}

/-- An index of the loop, as a `size_t`. -/
theorem toNat_ofNat_index (i : Fin replayBitmapWords) : (BitVec.ofNat 64 i).toNat = i :=
  Nat.mod_eq_of_lt (Nat.lt_trans i.isLt (by decide))

/-- A turn of the loop has a meaning, and puts the word in its place. -/
theorem slideStep_eq (hbit : bitShift.toNat < 64) (i : Fin replayBitmapWords) (hzero : new.get i = 0) :
    slideStep bitmap wordShift bitShift new (BitVec.ofNat 64 i) =
      some (new.set i (slideWord bitmap wordShift.toNat bitShift.toNat i)) := by
  have hi := toNat_ofNat_index i
  have hle : wordShift ≤ BitVec.ofNat 64 i ↔ wordShift.toNat ≤ i := by rw [BitVec.le_def, hi]
  have hlt : wordShift < BitVec.ofNat 64 i ↔ wordShift.toNat < i := by rw [BitVec.lt_def, hi]
  have hpos : 0 < bitShift ↔ 0 < bitShift.toNat := BitVec.lt_def
  simp only [slideStep, slideWord, ge_iff_le, gt_iff_lt, hle, hlt, hpos, hi]
  by_cases hword : wordShift.toNat ≤ i
  · have hsub : (BitVec.ofNat 64 i - wordShift).toNat = i - wordShift.toNat := by
      rw [BitVec.toNat_sub_of_le (hle.mpr hword), hi]
    rw [if_pos hword, if_pos hword, hsub, read?_of_lt (by omega)]
    simp only [Option.bind_eq_bind, Option.bind_some, shl?_of_lt hbit, write?_of_lt i.isLt]
    by_cases hcarry : 0 < bitShift.toNat ∧ wordShift.toNat < i
    · -- there is a word below, and its shift is by at least one bit and at most 63
      have hbelow : (BitVec.ofNat 64 i - wordShift - 1).toNat = i - wordShift.toNat - 1 := by
        rw [BitVec.toNat_sub_of_le (BitVec.le_def.mpr (by rw [hsub]; exact Nat.sub_pos_of_lt hcarry.2)), hsub]
        rfl
      have hshift : (64 - bitShift).toNat = 64 - bitShift.toNat :=
        BitVec.toNat_sub_of_le (BitVec.le_def.mpr (Nat.le_of_lt hbit))
      rw [if_pos hcarry, if_pos hcarry, hbelow, hshift, read?_of_lt (by omega)]
      simp only [Option.bind_some, shr?_of_lt (show 64 - bitShift.toNat < 64 by omega), read?_of_lt i.isLt,
        List.Vector.get_set_same, set_set]
    · rw [if_neg hcarry, if_neg hcarry]
      rfl
  · rw [if_neg hword, if_neg hword, ← hzero, set_get]

end

/-- The loop stays within its arrays and its shifts within the words, whatever the difference is, and gives `slide`. -/
theorem slideLoop_eq (bitmap : List.Vector (BitVec 64) replayBitmapWords) (diff : BitVec 64) :
    slideLoop bitmap diff = some (slide bitmap diff.toNat) :=
  foldlM_fill fun _ => slideStep_eq (Nat.mod_lt diff.toNat (show 0 < 64 by decide))

/-- **The slide of the window is a shift of one 2048-bit number.** For every bitmap and every difference all indices
of the loop are below 32 and all its shifts below 64; what it leaves in `new_bitmap` is the old bitmap times `2 ^ diff`,
modulo `2 ^ 2048`, and so each word of it is a digit of that number. -/
theorem slideLoop_is_shift (bitmap : List.Vector (BitVec 64) replayBitmapWords) (diff : BitVec 64) :
    slideLoop bitmap diff = some (slide bitmap diff.toNat) ∧
      value (slide bitmap diff.toNat) = value bitmap * 2 ^ diff.toNat % 2 ^ replayWindowSize ∧
      ∀ i, ((slide bitmap diff.toNat).get i).toNat =
        value bitmap * 2 ^ diff.toNat % 2 ^ replayWindowSize / 2 ^ (64 * (i : ℕ)) % 2 ^ 64 := by
  have hvalue : value (slide bitmap diff.toNat) = value bitmap * 2 ^ diff.toNat % 2 ^ replayWindowSize := by
    rw [value_of_shifted (by decide) fun k hk => bit_slide bitmap hk, Nat.mul_comm 64]
  refine ⟨slideLoop_eq bitmap diff, hvalue, fun i => ?_⟩
  rw [← hvalue]
  exact toNat_get_eq (by decide) _ i

end VpnTunnel
