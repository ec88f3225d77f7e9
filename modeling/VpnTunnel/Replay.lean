import VpnTunnel.Lib.WordBits
import VpnTunnel.Lib.Window

/-!
# The anti-replay window

This module models `src/replay.c` and proves that the filter is exact.

"Each peer tracks the highest authenticated packet counter (`last_counter`). A 2048-bit sliding
window bitmap (`uint64_t bitmap[32]`) tracks received sequence numbers in the range
`[last_counter - 2047, last_counter]`. Bit 0 of `bitmap[0]` represents `last_counter`. Bit K
represents packet with sequence `last_counter - K`."

## The model

`ReplayFilter` is `replay_filter_t`; `replayInit`, `replayCheck` and `replayUpdate` are the three
functions, on 64-bit counters. A filter that has received nothing is not marked as such: it is
recognised by `last_counter == 0` and `bitmap[0] == 0` (`ReplayFilter.Untouched`).

## What is proved

* `bit_slide` — the word loop of `replay_update` shifts the 2048 bits.
* `replayUpdate_holds` — an update refines insertion into the set of counters received (`Holds`).
* `replayCheck_iff_accepts` — a check is the acceptance test of the ideal window over that set.
* `replayCheck_replayUpdate_of_refused` — once refused, always refused, whatever the filter held.
* `replayRun_eq_of_same_counters` — the order and the repetitions of the counters leave no trace in the filter.
-/

namespace VpnTunnel

open WordBits

/-! ### The filter -/

/-- The number of words in the bitmap, `VPN_REPLAY_BITMAP_WORDS`. -/
abbrev replayBitmapWords : ℕ := 32

/-- The width of the window in bits, `VPN_REPLAY_WINDOW_SIZE`. -/
abbrev replayWindowSize : ℕ := replayBitmapWords * 64

/-- The replay filter, `replay_filter_t`. -/
@[ext]
structure ReplayFilter where
  /-- The highest counter received. -/
  lastCounter : BitVec 64
  /-- The window: bit `k` stands for the counter `lastCounter - k`. -/
  bitmap : List.Vector (BitVec 64) replayBitmapWords
  deriving DecidableEq

/-- The cleared filter, `replay_init`. -/
def replayInit : ReplayFilter := ⟨0, List.Vector.replicate _ 0⟩

/-- How the code recognises that no packet has been received yet. -/
def ReplayFilter.Untouched (f : ReplayFilter) : Prop := f.lastCounter = 0 ∧ f.bitmap.get 0 = 0

instance (f : ReplayFilter) : Decidable f.Untouched := inferInstanceAs (Decidable (_ ∧ _))

/-- A bit of the window lies in a word of the bitmap. -/
theorem wordIdx_lt {k : ℕ} (h : k < replayWindowSize) : k / 64 < replayBitmapWords :=
  Nat.div_lt_of_lt_mul (by rwa [Nat.mul_comm])

/-- The test made before decryption, `replay_check`. -/
def replayCheck (filter : ReplayFilter) (counter : BitVec 64) : Bool :=
  if filter.Untouched then true
  else if counter > filter.lastCounter then true
  else
    let diff := filter.lastCounter - counter
    if h : diff.toNat ≥ replayWindowSize then false
    else
      let wordIdx : Fin replayBitmapWords := ⟨diff.toNat / 64, wordIdx_lt (Nat.lt_of_not_le h)⟩
      let bitIdx := diff.toNat % 64
      if filter.bitmap.get wordIdx &&& (1#64 <<< bitIdx) ≠ 0 then false else true

/-- Word `i` of the new bitmap, as the loop of `replay_update` computes it. -/
def slideWord (bitmap : List.Vector (BitVec 64) replayBitmapWords) (wordShift bitShift : ℕ)
    (i : Fin replayBitmapWords) : BitVec 64 :=
  if i ≥ wordShift then
    let word := bitmap.get ⟨i - wordShift, by omega⟩ <<< bitShift
    if bitShift > 0 ∧ i > wordShift then
      word ||| bitmap.get ⟨i - wordShift - 1, by omega⟩ >>> (64 - bitShift)
    else word
  else 0

/-- The loop of `replay_update`: slide the bitmap by `diff` bits. -/
def slide (bitmap : List.Vector (BitVec 64) replayBitmapWords) (diff : ℕ) :
    List.Vector (BitVec 64) replayBitmapWords :=
  List.Vector.ofFn fun i => slideWord bitmap (diff / 64) (diff % 64) i

/-- The update made after decryption has succeeded, `replay_update`. -/
def replayUpdate (filter : ReplayFilter) (counter : BitVec 64) : ReplayFilter :=
  if filter.Untouched then
    { lastCounter := counter, bitmap := filter.bitmap.set 0 1 }
  else if counter > filter.lastCounter then
    let diff := counter - filter.lastCounter
    let bitmap :=
      if diff.toNat < replayWindowSize then slide filter.bitmap diff.toNat
      else List.Vector.replicate _ 0
    { lastCounter := counter, bitmap := bitmap.set 0 (bitmap.get 0 ||| 1) }
  else
    let diff := filter.lastCounter - counter
    if h : diff.toNat < replayWindowSize then
      let wordIdx : Fin replayBitmapWords := ⟨diff.toNat / 64, wordIdx_lt h⟩
      let bitIdx := diff.toNat % 64
      { filter with bitmap := filter.bitmap.set wordIdx (filter.bitmap.get wordIdx ||| 1#64 <<< bitIdx) }
    else filter

/-- The filter after the counters of `H` have been received in order. -/
def replayRun (H : List (BitVec 64)) : ReplayFilter := H.foldl replayUpdate replayInit

/-! ### The bits of an update -/

/-- A bit of a word of the new bitmap at or above `bit_shift` comes from the word `word_shift` below. -/
theorem getLsbD_slideWord_high (b : List.Vector (BitVec 64) replayBitmapWords) {q r j : ℕ}
    {i : Fin replayBitmapWords} (hi : q ≤ i) (hr : r ≤ j) (hj : j < 64) :
    (slideWord b q r i).getLsbD j = bit b (64 * (i - q) + (j - r)) := by
  have hlt : (i : ℕ) - q < replayBitmapWords := Nat.lt_of_le_of_lt (Nat.sub_le _ _) i.isLt
  rw [slideWord, if_pos hi, bit_word b ⟨i - q, hlt⟩ (show j - r < 64 by omega)]
  -- the carry from the next word below lands under `bit_shift`
  have hcarry : 64 ≤ 64 - r + j := by omega
  split <;> simp only [BitVec.getLsbD_or, BitVec.getLsbD_shiftLeft, BitVec.getLsbD_ushiftRight,
    BitVec.getLsbD_of_ge _ _ hcarry, Nat.not_lt.mpr hr, hj, decide_true, decide_false, Bool.not_false,
    Bool.true_and, Bool.or_false]

/-- A bit of a word of the new bitmap below `bit_shift` is the carry. -/
theorem getLsbD_slideWord_low (b : List.Vector (BitVec 64) replayBitmapWords) {q r j : ℕ}
    {i : Fin replayBitmapWords} (hi : q < i) (hr : j < r) (hr64 : r < 64) :
    (slideWord b q r i).getLsbD j = bit b (64 * (i - q - 1) + (64 - r + j)) := by
  have hlt : (i : ℕ) - q - 1 < replayBitmapWords := by have := i.isLt; omega
  have hcond : r > 0 ∧ (i : ℕ) > q := ⟨by omega, hi⟩
  rw [slideWord, if_pos (Nat.le_of_lt hi), if_pos hcond,
    bit_word b ⟨i - q - 1, hlt⟩ (show 64 - r + j < 64 by omega)]
  simp only [BitVec.getLsbD_or, BitVec.getLsbD_shiftLeft, BitVec.getLsbD_ushiftRight, hr, decide_true,
    Bool.not_true, Bool.and_false, Bool.false_and, Bool.false_or]

/-- The lowest word that moved takes no carry: its bits below `bit_shift` are clear. -/
theorem getLsbD_slideWord_first (b : List.Vector (BitVec 64) replayBitmapWords) {q r j : ℕ}
    {i : Fin replayBitmapWords} (hi : q = i) (hr : j < r) : (slideWord b q r i).getLsbD j = false := by
  have hcond : ¬ (r > 0 ∧ (i : ℕ) > q) := by omega
  rw [slideWord, if_pos (Nat.le_of_eq hi), if_neg hcond]
  simp only [BitVec.getLsbD_shiftLeft, hr, decide_true, Bool.not_true, Bool.and_false, Bool.false_and]

/-- The word loop shifts the bitmap: bit `k` of the new one is bit `k - d` of the old one. -/
theorem bit_slide (b : List.Vector (BitVec 64) replayBitmapWords) {d k : ℕ} (hk : k < replayWindowSize) :
    bit (slide b d) k = (decide (d ≤ k) && bit b (k - d)) := by
  have hw := wordIdx_lt hk
  have hkd := Nat.div_add_mod k 64
  have hdd := Nat.div_add_mod d 64
  have hk64 := Nat.mod_lt k (show 0 < 64 by decide)
  have hd64 := Nat.mod_lt d (show 0 < 64 by decide)
  rw [bit_of_lt hw, slide, List.Vector.get_ofFn]
  rcases Nat.lt_trichotomy (k / 64) (d / 64) with hlt | heq | hgt
  · rw [slideWord, if_neg (Nat.not_le.mpr hlt), decide_eq_false (by omega)]
    simp
  · by_cases hr : d % 64 ≤ k % 64
    · rw [getLsbD_slideWord_high b (Nat.le_of_eq heq.symm) hr hk64, decide_eq_true (by omega), Bool.true_and]
      congr 1
      simp only; omega
    · rw [getLsbD_slideWord_first b heq.symm (by omega), decide_eq_false (by omega), Bool.false_and]
  · rw [decide_eq_true (by omega), Bool.true_and]
    by_cases hr : d % 64 ≤ k % 64
    · rw [getLsbD_slideWord_high b (Nat.le_of_lt hgt) hr hk64]
      congr 1
      simp only; omega
    · rw [getLsbD_slideWord_low b hgt (by omega) hd64]
      congr 1
      simp only; omega

/-- Setting the lowest bit, `bitmap[0] |= 1ULL`. -/
theorem bit_set_first (b : List.Vector (BitVec 64) replayBitmapWords) (k : ℕ) :
    bit (b.set 0 (b.get 0 ||| 1)) k = (bit b k || decide (k = 0)) :=
  bit_set_or b 0 (j := 0) (by decide) k

/-- After an update the highest counter is the greater of the two. -/
theorem lastCounter_replayUpdate {f : ReplayFilter} (hf : ¬ f.Untouched) (c : BitVec 64) :
    (replayUpdate f c).lastCounter.toNat = max f.lastCounter.toNat c.toNat := by
  rw [replayUpdate, if_neg hf]
  split
  case isTrue h =>
    rw [gt_iff_lt, BitVec.lt_def] at h
    simp only; omega
  case isFalse h =>
    rw [gt_iff_lt, BitVec.lt_def] at h
    have hmax : f.lastCounter.toNat = max f.lastCounter.toNat c.toNat := by omega
    simp only
    split <;> exact hmax

/-- A counter ahead of all before moves the bits up, and out of the window. -/
theorem bit_advance (b : List.Vector (BitVec 64) replayBitmapWords) (diff : ℕ) {k : ℕ} (hk : k < replayWindowSize) :
    bit (if diff < replayWindowSize then slide b diff else List.Vector.replicate _ 0) k = true ↔
      ∃ j, bit b j = true ∧ j + diff = k := by
  split
  case isTrue hd =>
    rw [bit_slide _ hk, Bool.and_eq_true, decide_eq_true_eq]
    constructor
    · rintro ⟨hle, hb⟩
      exact ⟨_, hb, by omega⟩
    · rintro ⟨j, hb, rfl⟩
      exact ⟨by omega, by rwa [Nat.add_sub_cancel]⟩
  case isFalse hd =>
    -- the whole window was passed over
    simp only [bit_replicate_zero, Bool.false_eq_true, false_iff, not_exists, not_and]
    intro j _
    omega

/-- What an update does to the bits: they move up by as much as the highest counter did, and the bit
of the counter received is set. -/
theorem bit_replayUpdate {f : ReplayFilter} (hf : ¬ f.Untouched) (c : BitVec 64) {k : ℕ}
    (hk : k < replayWindowSize) :
    bit (replayUpdate f c).bitmap k = true ↔
      (∃ j, bit f.bitmap j = true ∧ j + ((replayUpdate f c).lastCounter.toNat - f.lastCounter.toNat) = k) ∨
        k + c.toNat = (replayUpdate f c).lastCounter.toNat := by
  rw [lastCounter_replayUpdate hf, replayUpdate, if_neg hf]
  split
  case isTrue h =>
    rw [gt_iff_lt, BitVec.lt_def] at h
    have hdiff : (c - f.lastCounter).toNat = c.toNat - f.lastCounter.toNat :=
      BitVec.toNat_sub_of_le (BitVec.le_def.mpr (Nat.le_of_lt h))
    have hmax : max f.lastCounter.toNat c.toNat = c.toNat := by omega
    have hlow : k = 0 ↔ k + c.toNat = c.toNat := by omega
    simp only [hdiff, hmax, bit_set_first, Bool.or_eq_true, decide_eq_true_eq, ← hlow]
    exact or_congr_left (bit_advance _ _ hk)
  case isFalse h =>
    rw [gt_iff_lt, BitVec.lt_def, Nat.not_lt] at h
    have hdiff : (f.lastCounter - c).toNat = f.lastCounter.toNat - c.toNat :=
      BitVec.toNat_sub_of_le (BitVec.le_def.mpr h)
    have hmax : max f.lastCounter.toNat c.toNat = f.lastCounter.toNat := by omega
    simp only [hdiff, hmax, Nat.sub_self, Nat.add_zero, exists_eq_right]
    split
    case isTrue hd =>
      have hpos := Nat.div_add_mod (f.lastCounter.toNat - c.toNat) 64
      rw [bit_set_or _ _ (Nat.mod_lt _ (by decide)), Bool.or_eq_true, decide_eq_true_eq]
      refine or_congr_right ?_
      simp only; omega
    case isFalse hd =>
      -- a stale counter is not recorded
      have hstale : ¬ k + c.toNat = f.lastCounter.toNat := by omega
      simp [hstale]

/-- Bit `0` of the bitmap is the lowest bit of its first word. -/
theorem bit_zero (b : List.Vector (BitVec 64) replayBitmapWords) : bit b 0 = (b.get 0).getLsbD 0 :=
  bit_word b 0 (j := 0) (by decide)

/-- A filter that records a counter, or is past it, is not taken for one that received nothing. -/
theorem not_untouched_of_recorded {f : ReplayFilter} {c : BitVec 64} (hle : c.toNat ≤ f.lastCounter.toNat)
    (h : replayWindowSize ≤ f.lastCounter.toNat - c.toNat ∨
      bit f.bitmap (f.lastCounter.toNat - c.toNat) = true) : ¬ f.Untouched := by
  rintro ⟨h0, hw0⟩
  rw [h0] at hle h
  have hc : c.toNat = 0 := Nat.le_zero.mp hle
  rw [hc] at h
  rcases h with h | h
  · exact absurd h (by decide)
  · rw [show (0 : BitVec 64).toNat - 0 = 0 from rfl, bit_zero, hw0] at h
    simp at h

/-- What the check refuses: a counter at or below the highest one, out of the window or with its
bit set. -/
theorem replayCheck_eq_false {f : ReplayFilter} {c : BitVec 64} :
    replayCheck f c = false ↔ c.toNat ≤ f.lastCounter.toNat ∧
      (replayWindowSize ≤ f.lastCounter.toNat - c.toNat ∨
        bit f.bitmap (f.lastCounter.toNat - c.toNat) = true) := by
  rw [replayCheck]
  split
  case isTrue hf =>
    simp only [Bool.true_eq_false, false_iff]
    exact fun h => not_untouched_of_recorded h.1 h.2 hf
  case isFalse hf =>
    split
    case isTrue h =>
      rw [gt_iff_lt, BitVec.lt_def] at h
      simp [Nat.not_le.mpr h]
    case isFalse h =>
      rw [gt_iff_lt, BitVec.lt_def, Nat.not_lt] at h
      have hdiff : (f.lastCounter - c).toNat = f.lastCounter.toNat - c.toNat :=
        BitVec.toNat_sub_of_le (BitVec.le_def.mpr h)
      simp only [hdiff, h, true_and]
      split
      case isTrue hd => simp [hd]
      case isFalse hd =>
        have hlt := Nat.lt_of_not_le hd
        rw [bit_of_lt (wordIdx_lt hlt), if_congr (and_one_shiftLeft_ne_zero (Nat.mod_lt _ (by decide))) rfl rfl]
        simp [hd]

/-! ### Once refused, always refused -/

/-- A counter just received is refused. This and the next theorem need nothing of the filter: they
hold of one that no run of the code produces. -/
theorem replayCheck_replayUpdate_self (f : ReplayFilter) (c : BitVec 64) :
    replayCheck (replayUpdate f c) c = false := by
  rw [replayCheck_eq_false]
  by_cases hf : f.Untouched
  · rw [replayUpdate, if_pos hf]
    refine ⟨Nat.le_refl _, Or.inr ?_⟩
    rw [Nat.sub_self, bit_zero, List.Vector.get_set_same]
    rfl
  · have hlast := lastCounter_replayUpdate hf c
    refine ⟨by omega, ?_⟩
    by_cases hw : replayWindowSize ≤ (replayUpdate f c).lastCounter.toNat - c.toNat
    · exact Or.inl hw
    · exact Or.inr ((bit_replayUpdate hf c (Nat.lt_of_not_le hw)).mpr (Or.inr (by omega)))

/-- A filter that refuses a counter refuses it after any update. -/
theorem replayCheck_replayUpdate_of_refused {f : ReplayFilter} {c : BitVec 64} (d : BitVec 64)
    (h : replayCheck f c = false) : replayCheck (replayUpdate f d) c = false := by
  obtain ⟨hle, hbit⟩ := replayCheck_eq_false.mp h
  have hf := not_untouched_of_recorded hle hbit
  have hlast := lastCounter_replayUpdate hf d
  refine replayCheck_eq_false.mpr ⟨by omega, ?_⟩
  by_cases hw : replayWindowSize ≤ (replayUpdate f d).lastCounter.toNat - c.toNat
  · exact Or.inl hw
  · -- the bit of `c` has moved with the window
    have hold := hbit.resolve_left (by omega)
    exact Or.inr ((bit_replayUpdate hf d (Nat.lt_of_not_le hw)).mpr (Or.inl ⟨_, hold, by omega⟩))

/-! ### The filter refines the set of counters received -/

/-- The filter holds exactly the counters of `S`: the highest is the greatest of `S`, and the bit at
distance `k` below it is set when that counter is in `S`. -/
structure Holds (f : ReplayFilter) (S : Set ℕ) : Prop where
  greatest : IsGreatest S f.lastCounter.toNat
  bits : ∀ k < replayWindowSize, bit f.bitmap k = true ↔ ∃ h ∈ S, h + k = f.lastCounter.toNat

/-- A filter that holds something is not taken for one that received nothing. -/
theorem Holds.not_untouched {f : ReplayFilter} {S : Set ℕ} (h : Holds f S) : ¬ f.Untouched := by
  refine not_untouched_of_recorded (Nat.le_refl _) (Or.inr ?_)
  rw [Nat.sub_self, h.bits 0 (by decide)]
  exact ⟨_, h.greatest.1, Nat.add_zero _⟩

/-- What a filter holds determines it, word for word. -/
theorem Holds.filter_unique {f g : ReplayFilter} {S : Set ℕ} (hf : Holds f S) (hg : Holds g S) : f = g := by
  have hlast : f.lastCounter.toNat = g.lastCounter.toNat := hf.greatest.unique hg.greatest
  refine ReplayFilter.ext (BitVec.eq_of_toNat_eq hlast) (ext_bit fun k hk => ?_)
  have hwindow : k < replayWindowSize := by rwa [Nat.mul_comm] at hk
  rw [Bool.eq_iff_iff, hf.bits k hwindow, hg.bits k hwindow, hlast]

/-- The first counter received. -/
theorem replayUpdate_replayInit_holds (c : BitVec 64) : Holds (replayUpdate replayInit c) {c.toNat} := by
  have h0 : replayInit.Untouched := ⟨rfl, rfl⟩
  rw [replayUpdate, if_pos h0]
  refine ⟨isGreatest_singleton, fun k _ => ?_⟩
  have hset : replayInit.bitmap.set 0 1 = replayInit.bitmap.set 0 (replayInit.bitmap.get 0 ||| 1) := rfl
  rw [hset, bit_set_first, replayInit, bit_replicate_zero]
  simp

/-- An update inserts its counter into the set. -/
theorem replayUpdate_holds {f : ReplayFilter} {S : Set ℕ} (h : Holds f S) (c : BitVec 64) :
    Holds (replayUpdate f c) (insert c.toNat S) := by
  have hlast := lastCounter_replayUpdate h.not_untouched c
  refine ⟨by rw [hlast, max_comm]; exact h.greatest.insert _, fun k hk => ?_⟩
  rw [bit_replayUpdate h.not_untouched c hk]
  constructor
  · rintro (⟨j, hj, hjk⟩ | hc)
    · obtain ⟨x, hx, hxj⟩ := (h.bits j (by omega)).mp hj
      exact ⟨x, Set.mem_insert_of_mem _ hx, by omega⟩
    · exact ⟨_, Set.mem_insert _ _, by omega⟩
  · rintro ⟨x, rfl | hx, hxk⟩
    · exact Or.inr (by omega)
    · have hle := h.greatest.2 hx
      refine Or.inl ⟨f.lastCounter.toNat - x, (h.bits _ (by omega)).mpr ⟨x, hx, by omega⟩, by omega⟩

/-- Updates along a list insert its counters. -/
theorem foldl_replayUpdate_holds {f : ReplayFilter} {S : Set ℕ} (h : Holds f S) (H : List (BitVec 64)) :
    Holds (H.foldl replayUpdate f) (S ∪ {x | x ∈ H.map BitVec.toNat}) := by
  induction H generalizing f S with
  | nil => simpa using h
  | cons c H ih =>
    have hset : S ∪ {x | x ∈ (c :: H).map BitVec.toNat} = insert c.toNat S ∪ {x | x ∈ H.map BitVec.toNat} := by
      ext x
      simp only [List.map_cons, List.mem_cons, Set.mem_union, Set.mem_ofPred_eq, Set.mem_insert_iff]
      tauto
    rw [hset, List.foldl_cons]
    exact ih (replayUpdate_holds h c)

/-- After a run over a nonempty list the filter holds the counters of the list. -/
theorem replayRun_holds {H : List (BitVec 64)} (hH : H ≠ []) :
    Holds (replayRun H) {x | x ∈ H.map BitVec.toNat} := by
  cases H with
  | nil => exact absurd rfl hH
  | cons c H =>
    have hset : {x | x ∈ (c :: H).map BitVec.toNat} = {c.toNat} ∪ {x | x ∈ H.map BitVec.toNat} := by
      ext x; simp
    rw [hset]
    exact foldl_replayUpdate_holds (replayUpdate_replayInit_holds c) H

/-- The check is the acceptance test of the ideal window. -/
theorem replayCheck_iff_accepts {f : ReplayFilter} {S : Set ℕ} (h : Holds f S) (c : BitVec 64) :
    replayCheck f c = true ↔ Window.Accepts replayWindowSize S c.toNat := by
  rw [← Bool.not_eq_false, replayCheck_eq_false, Window.accepts_iff h.greatest, ← not_iff_not, not_not]
  constructor
  · rintro ⟨hle, hstale | hbit⟩
    · omega
    · rintro (hlt | ⟨hw, hn⟩)
      · omega
      · obtain ⟨x, hx, hxk⟩ := (h.bits _ hw).mp hbit
        exact hn (by rwa [show c.toNat = x by omega])
  · intro hn
    have hle : c.toNat ≤ f.lastCounter.toNat := by omega
    refine ⟨hle, ?_⟩
    by_cases hw : f.lastCounter.toNat - c.toNat < replayWindowSize
    · have hc : c.toNat ∈ S := by
        by_contra hc
        exact hn (Or.inr ⟨hw, hc⟩)
      exact Or.inr ((h.bits _ hw).mpr ⟨_, hc, by omega⟩)
    · exact Or.inl (Nat.le_of_not_lt hw)

/-! ### Whole runs -/

/-- The greatest counter of a list. -/
def maxCounter (H : List (BitVec 64)) : ℕ := (H.map BitVec.toNat).foldr max 0

/-- A run accepts what the ideal window over its counters accepts. -/
theorem replayCheck_replayRun (H : List (BitVec 64)) (c : BitVec 64) :
    replayCheck (replayRun H) c = true ↔
      Window.Accepts replayWindowSize {x | x ∈ H.map BitVec.toNat} c.toNat := by
  rcases eq_or_ne H [] with rfl | hH
  · have h0 : replayCheck (replayRun []) c = true := by
      rw [replayCheck, if_pos (show (replayRun []).Untouched from ⟨rfl, rfl⟩)]
    rw [h0, List.map_nil]
    simp only [List.not_mem_nil, Set.ofPred_false, true_iff]
    exact Window.accepts_empty _ _
  · exact replayCheck_iff_accepts (replayRun_holds hH) c

/-- The counter `maxCounter H` is the greatest of a nonempty list. -/
theorem isGreatest_maxCounter {H : List (BitVec 64)} (hH : H ≠ []) :
    IsGreatest {x | x ∈ H.map BitVec.toNat} (maxCounter H) :=
  Window.isGreatest_foldr_max (by simpa using hH)

/-- A counter occurs in a list when its value does. -/
theorem toNat_mem_map_iff {H : List (BitVec 64)} {c : BitVec 64} : c.toNat ∈ H.map BitVec.toNat ↔ c ∈ H := by
  simp only [List.mem_map, BitVec.toNat_inj, exists_eq_right]

/-- **The filter is exact over whole runs**: after any counters `H`, a counter is accepted when `H` is
empty, when it is above the greatest of `H`, and when it is within the window below it and not in
`H`. So a counter received is never accepted again, and no new counter in the window is refused. -/
theorem replayCheck_replayRun_exact (H : List (BitVec 64)) (c : BitVec 64) :
    (replayCheck (replayRun H) c = true ↔
      H = [] ∨ c.toNat > maxCounter H ∨ (maxCounter H - c.toNat < 2048 ∧ c ∉ H)) ∧
    (c ∈ H → ∀ G, replayCheck (replayRun (H ++ G)) c = false) ∧
    (maxCounter H - c.toNat < 2048 → c ∉ H → replayCheck (replayRun H) c = true) := by
  have hexact : replayCheck (replayRun H) c = true ↔
      H = [] ∨ c.toNat > maxCounter H ∨ (maxCounter H - c.toNat < 2048 ∧ c ∉ H) := by
    rw [replayCheck_replayRun]
    rcases eq_or_ne H [] with rfl | hH
    · simpa using Window.accepts_empty _ _
    · rw [Window.accepts_iff (isGreatest_maxCounter hH), Set.mem_ofPred_eq, toNat_mem_map_iff]
      simp only [hH, false_or, gt_iff_lt]
      exact Iff.rfl
  refine ⟨hexact, fun hc G => ?_, fun hw hc => hexact.mpr (Or.inr (Or.inr ⟨hw, hc⟩))⟩
  have hmem : c ∈ H ++ G := List.mem_append_left G hc
  rw [← Bool.not_eq_true, replayCheck_replayRun]
  exact Window.not_accepts_of_mem (isGreatest_maxCounter (List.ne_nil_of_mem hmem)) (toNat_mem_map_iff.mpr hmem)

/-! ### The order of arrival -/

/-- **The order in which counters arrive makes no difference**, nor how often each does: two runs over the same
set of counters end in the same filter. -/
theorem replayRun_eq_of_same_counters (H G : List (BitVec 64)) (hsame : ∀ c, c ∈ H ↔ c ∈ G) :
    replayRun H = replayRun G := by
  rcases eq_or_ne H [] with rfl | hH
  · have hG : G = [] := List.eq_nil_iff_forall_not_mem.mpr fun c hc => List.not_mem_nil ((hsame c).mpr hc)
    rw [hG]
  · obtain ⟨c, hc⟩ := List.exists_mem_of_ne_nil H hH
    have hG : G ≠ [] := List.ne_nil_of_mem ((hsame c).mp hc)
    have hset : {x | x ∈ H.map BitVec.toNat} = {x | x ∈ G.map BitVec.toNat} := by
      ext x
      simp only [List.mem_map, Set.mem_ofPred_eq, hsame]
    have hholds := replayRun_holds hH
    rw [hset] at hholds
    exact hholds.filter_unique (replayRun_holds hG)

/-- Counters on both sides of the edge of the window, in two orders. -/
theorem replayRun_two_orders : replayRun [0, 3000, 952, 953, 3000] = replayRun [953, 952, 3000, 0] :=
  replayRun_eq_of_same_counters _ _ fun c => by
    simp only [List.mem_cons, List.not_mem_nil, or_false]
    tauto

end VpnTunnel
