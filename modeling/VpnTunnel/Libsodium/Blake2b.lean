import VpnTunnel.Libsodium.Poly1305

/-!
# BLAKE2b

This module models `crypto_generichash/blake2b/ref` of the libsodium the repository carries in `deps/`, which is
`crypto_generichash`: the transcript hash, the key derivation and the first MAC of the handshake.

## The model

The state has eight words, a counter of the octets that were compressed in two words, two flags, and a buffer for two
blocks of 128 octets. `blake2b_update` is lazy: a block is compressed only when the buffer is full and there is more
input, so that the last block is always still there for `blake2b_final`, which marks it. The two copies that the
source makes when a block has been compressed, of 128 octets and of what is left, are both of what is left (`shift`).
The compression function is the portable one (`blake2b-compress-ref.c`); there is no salt, and no tree.

## The standard

`blake2bSpec` does not know a buffer: the data, behind the key if there is one, is cut into blocks, of which the last is
filled up with zeros and marked, and the counter comes from the number of octets so far (`blake2bBlocks`).

## The argument

Whatever `blake2b_update` does with its input, the digest of all the data is the digest of what is in the buffer and
what is still to come, from the state that was reached (`blake2bUpdate_spec`).

## What is proved

* `Blake2bState.h_compress` — the compression function is that of the standard.
* `blake2b_spec` — so is the digest, for every message and key and every length of the digest that is allowed.
-/

namespace VpnTunnel

open Octets

/-! ### The model -/

/-- The words of a block can be named by numerals. -/
local instance neZero_sixteen : NeZero 16 := ⟨by decide⟩

/-- Eight words, the state of the hash. -/
abbrev Words8 := List.Vector (BitVec 64) 8

/-- Sixteen words: a block, or the working vector. -/
abbrev Words16 := List.Vector (BitVec 64) 16

/-- `ROTR64`. -/
def rotr64 (x : BitVec 64) (b : ℕ) : BitVec 64 := x >>> b ||| x <<< (64 - b)

/-- `blake2b_IV`. -/
def blake2bIV : Words8 :=
  ⟨[0x6a09e667f3bcc908#64, 0xbb67ae8584caa73b#64, 0x3c6ef372fe94f82b#64, 0xa54ff53a5f1d36f1#64,
    0x510e527fade682d1#64, 0x9b05688c2b3e6c1f#64, 0x1f83d9abfb41bd6b#64, 0x5be0cd19137e2179#64], rfl⟩

/-- `blake2b_sigma`. -/
def blake2bSigma : List.Vector (List.Vector (Fin 16) 16) 12 :=
  ⟨[⟨[0, 1, 2, 3, 4, 5, 6, 7, 8, 9, 10, 11, 12, 13, 14, 15], rfl⟩,
    ⟨[14, 10, 4, 8, 9, 15, 13, 6, 1, 12, 0, 2, 11, 7, 5, 3], rfl⟩,
    ⟨[11, 8, 12, 0, 5, 2, 15, 13, 10, 14, 3, 6, 7, 1, 9, 4], rfl⟩,
    ⟨[7, 9, 3, 1, 13, 12, 11, 14, 2, 6, 5, 10, 4, 0, 15, 8], rfl⟩,
    ⟨[9, 0, 5, 7, 2, 4, 10, 15, 14, 1, 11, 12, 6, 8, 3, 13], rfl⟩,
    ⟨[2, 12, 6, 10, 0, 11, 8, 3, 4, 13, 7, 5, 15, 14, 1, 9], rfl⟩,
    ⟨[12, 5, 1, 15, 14, 13, 4, 10, 0, 7, 6, 3, 9, 2, 8, 11], rfl⟩,
    ⟨[13, 11, 7, 14, 12, 1, 3, 9, 5, 0, 15, 4, 8, 6, 2, 10], rfl⟩,
    ⟨[6, 15, 14, 9, 11, 3, 0, 8, 12, 2, 13, 7, 1, 4, 10, 5], rfl⟩,
    ⟨[10, 2, 8, 4, 7, 6, 1, 5, 15, 11, 9, 14, 3, 12, 13, 0], rfl⟩,
    ⟨[0, 1, 2, 3, 4, 5, 6, 7, 8, 9, 10, 11, 12, 13, 14, 15], rfl⟩,
    ⟨[14, 10, 4, 8, 9, 15, 13, 6, 1, 12, 0, 2, 11, 7, 5, 3], rfl⟩], rfl⟩

/-- `G`, on four words of the working vector, with two words of the block. -/
def blakeG (a b c d : Fin 16) (x y : BitVec 64) (v : Words16) : Words16 :=
  let v := v.set a (v.get a + (v.get b + x))
  let v := v.set d (rotr64 (v.get d ^^^ v.get a) 32)
  let v := v.set c (v.get c + v.get d)
  let v := v.set b (rotr64 (v.get b ^^^ v.get c) 24)
  let v := v.set a (v.get a + (v.get b + y))
  let v := v.set d (rotr64 (v.get d ^^^ v.get a) 16)
  let v := v.set c (v.get c + v.get d)
  v.set b (rotr64 (v.get b ^^^ v.get c) 63)

/-- `ROUND`: the columns, then the diagonals. -/
def blakeRound (m : Words16) (s : List.Vector (Fin 16) 16) (v : Words16) : Words16 :=
  let v := blakeG 0 4 8 12 (m.get (s.get 0)) (m.get (s.get 1)) v
  let v := blakeG 1 5 9 13 (m.get (s.get 2)) (m.get (s.get 3)) v
  let v := blakeG 2 6 10 14 (m.get (s.get 4)) (m.get (s.get 5)) v
  let v := blakeG 3 7 11 15 (m.get (s.get 6)) (m.get (s.get 7)) v
  let v := blakeG 0 5 10 15 (m.get (s.get 8)) (m.get (s.get 9)) v
  let v := blakeG 1 6 11 12 (m.get (s.get 10)) (m.get (s.get 11)) v
  let v := blakeG 2 7 8 13 (m.get (s.get 12)) (m.get (s.get 13)) v
  blakeG 3 4 9 14 (m.get (s.get 14)) (m.get (s.get 15)) v

/-- The words of a block. -/
def blakeWords (block : List (BitVec 8)) : Words16 :=
  List.Vector.ofFn fun i => load64Le ((block.drop (8 * i)).take 8)

/-- The working vector: the state, and the constants with the counter and the flags. -/
def blakeWorking (h : Words8) (t0 t1 f0 f1 : BitVec 64) : Words16 :=
  ⟨h.toList ++ [blake2bIV.get 0, blake2bIV.get 1, blake2bIV.get 2, blake2bIV.get 3, t0 ^^^ blake2bIV.get 4,
    t1 ^^^ blake2bIV.get 5, f0 ^^^ blake2bIV.get 6, f1 ^^^ blake2bIV.get 7], by simp⟩

/-- Combine the two halves of the working vector with the state. -/
def blakeFold (h : Words8) (v : Words16) : Words8 :=
  List.Vector.ofFn fun i => h.get i ^^^ v.get (i.castLE (by omega)) ^^^ v.get (i.natAdd 8)

/-- `blake2b_state`. -/
structure Blake2bState where
  /-- The chained words. -/
  h : Words8
  /-- The lower half of the number of octets compressed. -/
  t0 : BitVec 64
  /-- Its upper half. -/
  t1 : BitVec 64
  /-- All ones when the last block is compressed. -/
  f0 : BitVec 64
  /-- All ones when, in a tree, the last node is. -/
  f1 : BitVec 64
  /-- Two blocks of input. -/
  buf : Bytes (BitVec 8) 256
  /-- How much of it there is. -/
  buflen : ℕ
  /-- It fits. -/
  buflen_le : buflen ≤ 256
  /-- The state is that of the last node of a tree. -/
  lastNode : BitVec 8

namespace Blake2bState

variable (st : Blake2bState)

/-- `blake2b_compress_ref`, of the first block in the buffer. -/
def compress : Blake2bState :=
  let m := blakeWords st.buf.toList
  let v := blake2bSigma.toList.foldl (fun v s => blakeRound m s v) (blakeWorking st.h st.t0 st.t1 st.f0 st.f1)
  { st with h := blakeFold st.h v }

/-- `blake2b_increment_counter`. -/
def incrementCounter (inc : BitVec 64) : Blake2bState :=
  let t : BitVec 128 := (st.t1.setWidth 128 <<< 64 ||| st.t0.setWidth 128) + inc.setWidth 128
  { st with t0 := t.setWidth 64, t1 := (t >>> 64).setWidth 64 }

/-- Copy octets behind those that are in the buffer. -/
def push (data : List (BitVec 8)) (hfit : st.buflen + data.length ≤ 256) : Blake2bState :=
  { st with
    buf := store st.buf st.buflen data hfit
    buflen := st.buflen + data.length
    buflen_le := hfit }

/-- Move what there is of the second block of the buffer to the front. -/
def shift : Blake2bState :=
  { st with
    buf := store st.buf 0 ((st.buf.toList.drop 128).take (st.buflen - 128)) (by simp)
    buflen := st.buflen - 128
    buflen_le := (Nat.sub_le _ _).trans st.buflen_le }

end Blake2bState

/-- `blake2b_update`. -/
def blake2bUpdate (st : Blake2bState) (input : List (BitVec 8)) : Blake2bState :=
  if input.length > 0 then
    if hfill : input.length > 256 - st.buflen then
      let full := st.push (input.take (256 - st.buflen)) (by have := st.buflen_le; simp; omega)
      blake2bUpdate (full.incrementCounter 128).compress.shift (input.drop (256 - st.buflen))
    else st.push input (by have := st.buflen_le; omega)
  else st
termination_by input.length + st.buflen
decreasing_by
  have := st.buflen_le
  simp [Blake2bState.shift, Blake2bState.compress, Blake2bState.incrementCounter, Blake2bState.push]
  omega

/-- The end of `blake2b_final`: the rest of the input is counted, filled up with zeros and compressed as the last
block. -/
def Blake2bState.lastBlock (st : Blake2bState) : Blake2bState :=
  let st := st.incrementCounter (BitVec.ofNat 64 st.buflen)
  -- `blake2b_set_lastblock`
  let st := { st with f0 := -1, f1 := if st.lastNode ≠ 0 then -1 else st.f1 }
  let padding := List.replicate (256 - st.buflen) 0#8
  let st := { st with buf := store st.buf st.buflen padding (by have := st.buflen_le; simp [padding]; omega) }
  st.compress

/-- `blake2b_final`: the digest, unless there was one. -/
def blake2bFinal (st : Blake2bState) (outlen : ℕ) : Option (List (BitVec 8)) :=
  if st.f0 ≠ 0 then none
  else
    let st := if st.buflen > 128 then (st.incrementCounter 128).compress.shift else st
    some ((st.lastBlock.h.toList.flatMap store64Le).take outlen)

/-- The parameter block, `blake2b_param`, with one leaf and no salt. -/
def blake2bParam (outlen keylen : ℕ) : List (BitVec 8) :=
  [BitVec.ofNat 8 outlen, BitVec.ofNat 8 keylen, 1#8, 1#8] ++ List.replicate 60 0#8

/-- There is room in a buffer that is empty. -/
theorem buflen_zero_le : 0 ≤ 256 := Nat.zero_le 256

/-- `blake2b_init_param`, on a parameter block. -/
def blake2bInitParam (p : List (BitVec 8)) : Blake2bState :=
  { h := List.Vector.ofFn fun i => blake2bIV.get i ^^^ load64Le ((p.drop (8 * i)).take 8)
    t0 := 0, t1 := 0, f0 := 0, f1 := 0
    buf := zeroBytes 256
    buflen := 0
    buflen_le := buflen_zero_le
    lastNode := 0 }

/-- `blake2b_init`. -/
def blake2bInit (outlen : ℕ) : Blake2bState := blake2bInitParam (blake2bParam outlen 0)

/-- `blake2b_init_key`: the key, filled up to a block, is the first input. -/
def blake2bInitKey (outlen : ℕ) (key : List (BitVec 8)) : Blake2bState :=
  blake2bUpdate (blake2bInitParam (blake2bParam outlen key.length)) (key ++ List.replicate (128 - key.length) 0#8)

/-- `blake2b`. -/
def blake2b (outlen : ℕ) (input key : List (BitVec 8)) : Option (List (BitVec 8)) :=
  let st := if key.length > 0 then blake2bInitKey outlen key else blake2bInit outlen
  blake2bFinal (blake2bUpdate st input) outlen

/-- `crypto_generichash_blake2b`, which is `crypto_generichash`: it refuses digests and keys of more than 64 octets, and
a digest of none. -/
def cryptoGenerichashBlake2b (outlen : ℕ) (input key : List (BitVec 8)) : Option (List (BitVec 8)) :=
  if outlen = 0 ∨ outlen > 64 ∨ key.length > 64 then none else blake2b outlen input key

/-! ### The standard -/

/-- The state and the constants, with the number of octets so far mixed in, and all bits of a word inverted for the
last block. -/
def blake2bStart (h : Words8) (t : BitVec 128) (last : Bool) : Words16 :=
  let v : Words16 := ⟨h.toList ++ blake2bIV.toList, by simp⟩
  let v := v.set 12 (v.get 12 ^^^ t.setWidth 64)
  let v := v.set 13 (v.get 13 ^^^ (t >>> 64).setWidth 64)
  if last then v.set 14 (~~~ v.get 14) else v

/-- The compression function: twelve rounds, with the words of the block in ten orders. -/
def blake2bF (h : Words8) (block : List (BitVec 8)) (t : BitVec 128) (last : Bool) : Words8 :=
  let m := blakeWords block
  let v := blake2bStart h t last
  let v := (List.range 12).foldl (fun v i => blakeRound m (blake2bSigma.get (Fin.ofNat 12 (i % 10))) v) v
  blakeFold h v

/-- Compress all of the data, after `t` octets: the last block is filled up with zeros. -/
def blake2bBlocks (h : Words8) (t : ℕ) (data : List (BitVec 8)) : Words8 :=
  if data.length ≤ 128 then
    blake2bF h (data ++ List.replicate (128 - data.length) 0#8) (BitVec.ofNat 128 (t + data.length)) true
  else blake2bBlocks (blake2bF h (data.take 128) (BitVec.ofNat 128 (t + 128)) false) (t + 128) (data.drop 128)
termination_by data.length
decreasing_by simp; omega

/-- The state that the lengths of the digest and of the key have gone into. -/
def blake2bH0 (nn kk : ℕ) : Words8 :=
  blake2bIV.set 0 (blake2bIV.get 0 ^^^ (0x01010000#64 ^^^ (BitVec.ofNat 64 kk <<< 8) ^^^ BitVec.ofNat 64 nn))

/-- BLAKE2b: a key, filled up to a block, stands in front of the message. -/
def blake2bSpec (nn : ℕ) (key message : List (BitVec 8)) : List (BitVec 8) :=
  let h := blake2bH0 nn key.length
  let data := if key.length > 0 then key ++ List.replicate (128 - key.length) 0#8 ++ message else message
  ((blake2bBlocks h 0 data).toList.flatMap store64Le).take nn

/-! ### The compression function -/

/-- The rows after the tenth are the first ones again. -/
theorem foldl_sigma (m v : Words16) : blake2bSigma.toList.foldl (fun v s => blakeRound m s v) v =
    (List.range 12).foldl (fun v i => blakeRound m (blake2bSigma.get (Fin.ofNat 12 (i % 10))) v) v := rfl

theorem blakeWorking_eq (h : Words8) (t : BitVec 128) (last : Bool) :
    blakeWorking h (t.setWidth 64) ((t >>> 64).setWidth 64) (if last then -1 else 0) 0 = blake2bStart h t last := by
  have h6 : (if last then -1 else 0) ^^^ blake2bIV.get 6 =
      if last then ~~~ blake2bIV.get 6 else blake2bIV.get 6 := by
    cases last <;> rfl
  have h7 : 0 ^^^ blake2bIV.get 7 = blake2bIV.get 7 := rfl
  unfold blakeWorking
  simp only [BitVec.xor_comm (t.setWidth 64), BitVec.xor_comm ((t >>> 64).setWidth 64), h6, h7]
  obtain ⟨l, hl⟩ := h
  match l, hl with
  | [a, b, c, d, e, f, g, i], _ => cases last <;> rfl

namespace Blake2bState

variable {st : Blake2bState}

/-- The number of octets compressed. -/
def count (st : Blake2bState) : BitVec 128 := st.t1.setWidth 128 <<< 64 ||| st.t0.setWidth 128

/-- What is in the buffer. -/
def pending (st : Blake2bState) : List (BitVec 8) := st.buf.toList.take st.buflen

theorem length_pending (st : Blake2bState) : st.pending.length = st.buflen := by
  rw [pending, List.length_take, st.buf.toList_length, Nat.min_eq_left st.buflen_le]

theorem setWidth_count (st : Blake2bState) : st.count.setWidth 64 = st.t0 := by
  ext i hi
  simp [count]

theorem setWidth_shift_count (st : Blake2bState) : (st.count >>> 64).setWidth 64 = st.t1 := by
  ext i hi
  simp [count, BitVec.getLsbD_shiftLeft, BitVec.getLsbD_setWidth]
  grind

/-- The two halves of a counter make the counter. -/
theorem count_incrementCounter (st : Blake2bState) (inc : BitVec 64) :
    (st.incrementCounter inc).count = st.count + inc.setWidth 128 := by
  have hhalves : ∀ x : BitVec 128,
      ((x >>> 64).setWidth 64 : BitVec 64).setWidth 128 <<< 64 ||| (x.setWidth 64 : BitVec 64).setWidth 128 = x := by
    intro x
    ext i hi
    by_cases h : i < 64
    · simp [h]
      grind
    · simp [h]
      grind
  exact hhalves _

/-- The state is still open for input, after `t` octets. -/
structure Open (st : Blake2bState) (t : ℕ) : Prop where
  /-- So many octets were compressed. -/
  count : st.count = BitVec.ofNat 128 t
  /-- The last block was not. -/
  f0 : st.f0 = 0
  /-- There is no tree. -/
  f1 : st.f1 = 0
  /-- There is no tree. -/
  lastNode : st.lastNode = 0

/-- **`blake2b_compress_ref` is the compression function**, on the first block in the buffer. -/
theorem h_compress (last : Bool) (hf0 : st.f0 = if last then -1 else 0) (hf1 : st.f1 = 0) :
    st.compress.h = blake2bF st.h st.buf.toList st.count last := by
  unfold compress blake2bF
  dsimp only
  rw [foldl_sigma, hf0, hf1, ← setWidth_count, ← setWidth_shift_count, blakeWorking_eq]

end Blake2bState

/-- It only looks at the first 128 octets. -/
theorem blake2bF_take (h : Words8) (block : List (BitVec 8)) (t : BitVec 128) (last : Bool) :
    blake2bF h (block.take 128) t last = blake2bF h block t last := by
  have hm : ∀ i : Fin 16, ((block.take 128).drop (8 * i)).take 8 = (block.drop (8 * i)).take 8 := by
    intro i
    rw [List.drop_take, List.take_take, Nat.min_eq_left (by omega)]
  have hwords : blakeWords (block.take 128) = blakeWords block := by
    unfold blakeWords
    simp only [hm]
  unfold blake2bF
  rw [hwords]

/-! ### The buffer -/

namespace Blake2bState

variable {st : Blake2bState} {t : ℕ}

theorem pending_push {data : List (BitVec 8)} (hfit : st.buflen + data.length ≤ 256) :
    (st.push data hfit).pending = st.pending ++ data := by
  have hin : st.buflen ≤ st.buf.toList.length := by
    rw [st.buf.toList_length]
    exact st.buflen_le
  have htake := take_writeAt (x := data) (y := []) hin
  rw [List.append_nil] at htake
  rw [pending, push, toList_store]
  exact htake

theorem take_buf (h : 128 ≤ st.buflen) : st.buf.toList.take 128 = st.pending.take 128 := by
  rw [pending, List.take_take, Nat.min_eq_left h]

theorem pending_shift : st.shift.pending = st.pending.drop 128 := by
  have hlen : ((st.buf.toList.drop 128).take (st.buflen - 128)).length = st.buflen - 128 := by
    have := st.buflen_le
    simp
    omega
  have htake := take_writeAt (x := (st.buf.toList.drop 128).take (st.buflen - 128)) (y := [])
    (Nat.zero_le st.buf.toList.length)
  rw [List.append_nil, List.take_zero, List.nil_append, Nat.zero_add, hlen] at htake
  rw [pending, shift, toList_store]
  dsimp only
  rw [htake, pending, List.drop_take]

theorem buflen_block (st : Blake2bState) :
    (st.incrementCounter 128).compress.shift.buflen = st.buflen - 128 := rfl

/-- **A block is taken out of the buffer**: it is compressed, and the rest moved to the front. -/
theorem Open.block (h : st.Open t) (hlen : 128 ≤ st.buflen) :
    (st.incrementCounter 128).compress.shift.Open (t + 128) ∧
      (st.incrementCounter 128).compress.shift.h =
        blake2bF st.h (st.pending.take 128) (BitVec.ofNat 128 (t + 128)) false ∧
      (st.incrementCounter 128).compress.shift.pending = st.pending.drop 128 := by
  have hcount : (st.incrementCounter 128).count = BitVec.ofNat 128 (t + 128) := by
    rw [count_incrementCounter, h.count, BitVec.ofNat_add]
    rfl
  refine ⟨⟨hcount, h.f0, h.f1, h.lastNode⟩, ?_, ?_⟩
  · have hcompress : (st.incrementCounter 128).compress.h =
        blake2bF st.h st.buf.toList (st.incrementCounter 128).count false := h_compress false h.f0 h.f1
    rw [← take_buf hlen, blake2bF_take, ← hcount]
    exact hcompress
  · exact pending_shift

end Blake2bState

/-- A block that is not the last one. -/
theorem blake2bBlocks_of_lt {h : Words8} {t : ℕ} {data : List (BitVec 8)} (hlen : 128 < data.length) :
    blake2bBlocks h t data =
      blake2bBlocks (blake2bF h (data.take 128) (BitVec.ofNat 128 (t + 128)) false) (t + 128) (data.drop 128) := by
  rw [blake2bBlocks, if_neg (by omega)]

/-- **Input is put off, or compressed, but not lost**: what is to be done with it, and with whatever comes after it, is
then still to be done with what is in the buffer. -/
theorem blake2bUpdate_spec {st : Blake2bState} {t : ℕ} (hst : st.Open t) (input : List (BitVec 8)) :
    ∃ t', (blake2bUpdate st input).Open t' ∧ ∀ rest, blake2bBlocks st.h t (st.pending ++ input ++ rest) =
      blake2bBlocks (blake2bUpdate st input).h t' ((blake2bUpdate st input).pending ++ rest) := by
  induction hn : input.length + st.buflen using Nat.strong_induction_on generalizing st t input with
  | _ n ih =>
    have hle := st.buflen_le
    rw [blake2bUpdate]
    split
    · next hpos =>
      split
      · next hfill =>
        -- the buffer is filled up, and there is more
        have hfit : st.buflen + (input.take (256 - st.buflen)).length ≤ 256 := by
          rw [List.length_take]
          omega
        generalize hfull : st.push (input.take (256 - st.buflen)) hfit = full
        have hopen : full.Open t := hfull ▸ ⟨hst.count, hst.f0, hst.f1, hst.lastNode⟩
        have hh : full.h = st.h := hfull ▸ rfl
        have hbuflen : full.buflen = 256 := by
          have heq : full.buflen = st.buflen + (input.take (256 - st.buflen)).length := hfull ▸ rfl
          rw [heq, List.length_take]
          omega
        have hpending : full.pending = st.pending ++ input.take (256 - st.buflen) := by
          rw [← hfull, Blake2bState.pending_push]
        have hlen : full.pending.length = 256 := full.length_pending.trans hbuflen
        obtain ⟨hnext, hblock, hrest⟩ := hopen.block (by omega)
        obtain ⟨t', hopen', hspec⟩ := ih _
          (by rw [Blake2bState.buflen_block, hbuflen, List.length_drop]; omega) hnext
          (input.drop (256 - st.buflen)) rfl
        refine ⟨t', hopen', fun rest => ?_⟩
        have hsplit : st.pending ++ input ++ rest = full.pending ++ (input.drop (256 - st.buflen) ++ rest) := by
          rw [hpending, List.append_assoc, List.append_assoc, ← List.append_assoc (input.take _), List.take_append_drop]
        rw [hsplit, blake2bBlocks_of_lt (by rw [List.length_append]; omega), List.take_append_of_le_length (by omega),
          List.drop_append_of_le_length (by omega), ← hspec, hblock, hrest, hh, List.append_assoc]
      · next hfit =>
        refine ⟨t, ⟨hst.count, hst.f0, hst.f1, hst.lastNode⟩, fun rest => ?_⟩
        rw [Blake2bState.pending_push]
        rfl
    · next hnone =>
      have hnil : input = [] := List.eq_nil_of_length_eq_zero (by omega)
      refine ⟨t, hst, fun rest => ?_⟩
      rw [hnil, List.append_nil]

/-! ### The end -/

namespace Blake2bState

variable {st : Blake2bState} {t : ℕ}

/-- **The last block**, if no more than one is left. -/
theorem Open.lastBlock (h : st.Open t) (hlen : st.buflen ≤ 128) :
    st.lastBlock.h = blake2bBlocks st.h t st.pending := by
  have hcount : (st.incrementCounter (BitVec.ofNat 64 st.buflen)).count = BitVec.ofNat 128 (t + st.buflen) := by
    have hwidth : (BitVec.ofNat 64 st.buflen).setWidth 128 = BitVec.ofNat 128 st.buflen := by
      refine BitVec.eq_of_toNat_eq ?_
      rw [BitVec.toNat_setWidth, BitVec.toNat_ofNat, BitVec.toNat_ofNat]
      omega
    rw [count_incrementCounter, h.count, hwidth, BitVec.ofNat_add]
  have hin : st.buflen ≤ st.buf.toList.length := by
    rw [st.buf.toList_length]
    exact st.buflen_le
  have hpadded : (writeAt st.buf.toList st.buflen (List.replicate (256 - st.buflen) 0#8)).take 128 =
      st.pending ++ List.replicate (128 - st.buflen) 0#8 := by
    have htake := take_writeAt (x := List.replicate (128 - st.buflen) 0#8) (y := List.replicate 128 0#8) hin
    rw [List.replicate_append_replicate, List.length_replicate] at htake
    rw [show 256 - st.buflen = 128 - st.buflen + 128 by omega]
    rw [show st.buflen + (128 - st.buflen) = 128 by omega] at htake
    exact htake
  have hf1 : (if st.lastNode ≠ 0 then -1 else st.f1) = 0 := by
    rw [if_neg (not_not.mpr h.lastNode)]
    exact h.f1
  rw [blake2bBlocks, if_pos (by rw [length_pending]; exact hlen), length_pending, ← hpadded, blake2bF_take, ← hcount]
  exact h_compress true rfl hf1

end Blake2bState

theorem blake2bFinal_spec {st : Blake2bState} {t : ℕ} (h : st.Open t) (outlen : ℕ) :
    blake2bFinal st outlen = some (((blake2bBlocks st.h t st.pending).toList.flatMap store64Le).take outlen) := by
  unfold blake2bFinal
  rw [if_neg (not_not.mpr h.f0)]
  dsimp only
  split
  · next hmore =>
    obtain ⟨hnext, hblock, hrest⟩ := h.block (by omega)
    have hlen : (st.incrementCounter 128).compress.shift.buflen ≤ 128 := by
      rw [Blake2bState.buflen_block]
      have := st.buflen_le
      omega
    rw [hnext.lastBlock hlen, hblock, hrest, ← blake2bBlocks_of_lt (by rw [Blake2bState.length_pending]; exact hmore)]
  · next hlast => rw [h.lastBlock (by omega)]

/-! ### The beginning -/

/-- The first word of the parameter block. -/
theorem load64Le_param (o k : BitVec 8) : load64Le [o, k, 1#8, 1#8, 0#8, 0#8, 0#8, 0#8] =
    0x01010000#64 ^^^ (k.setWidth 64 <<< 8) ^^^ o.setWidth 64 := by
  have hread : load64Le [o, k, 1#8, 1#8, 0#8, 0#8, 0#8, 0#8] =
      0x01010000#64 ||| k.setWidth 64 <<< 8 ||| o.setWidth 64 := by
    simp [load64Le, leReadFrom, Octet.toByte, BitVec.or_comm]
  -- the three parts have no bits in common
  have hlow : ∀ i < 16, (0x01010000#64).getLsbD i = false := by decide
  rw [hread]
  refine BitVec.eq_of_getLsbD_eq fun i hi => ?_
  simp only [BitVec.getLsbD_or, BitVec.getLsbD_xor, BitVec.getLsbD_setWidth, BitVec.getLsbD_shiftLeft]
  by_cases h8 : i < 8
  · simp [hlow i (by omega), h8]
  · rw [BitVec.getLsbD_of_ge o i (by omega)]
    by_cases h16 : i < 16
    · simp [hlow i h16]
    · rw [BitVec.getLsbD_of_ge k (i - 8) (by omega)]
      simp

theorem h_blake2bInitParam {nn kk : ℕ} (hnn : nn ≤ 64) (hkk : kk ≤ 64) :
    (blake2bInitParam (blake2bParam nn kk)).h = blake2bH0 nn kk := by
  have hwidth : ∀ n ≤ 64, (BitVec.ofNat 8 n).setWidth 64 = BitVec.ofNat 64 n := by
    intro n hn
    refine BitVec.eq_of_toNat_eq ?_
    rw [BitVec.toNat_setWidth, BitVec.toNat_ofNat, BitVec.toNat_ofNat]
    omega
  have hword := load64Le_param (BitVec.ofNat 8 nn) (BitVec.ofNat 8 kk)
  rw [hwidth nn hnn, hwidth kk hkk] at hword
  unfold blake2bH0
  rw [← hword]
  refine List.Vector.ext fun i => ?_
  rw [blake2bInitParam, List.Vector.get_ofFn]
  by_cases hi : i = 0
  · subst hi
    rw [List.Vector.get_set_same]
    rfl
  · have hzeros : ((blake2bParam nn kk).drop (8 * i)).take 8 = List.replicate 8 0#8 := by
      have hpos : 8 ≤ 8 * (i : ℕ) := by omega
      rw [blake2bParam, List.drop_append, List.drop_of_length_le (by simp; omega), List.drop_replicate, List.nil_append,
        List.take_replicate]
      congr 1
      simp
      omega
    have hload : load64Le (List.replicate 8 0#8) = 0#64 := by decide
    rw [hzeros, hload, BitVec.xor_zero, List.Vector.get_set_of_ne (Ne.symm hi)]

theorem open_blake2bInitParam (p : List (BitVec 8)) : (blake2bInitParam p).Open 0 := by
  have hzero : (0#64).setWidth 128 <<< 64 ||| (0#64).setWidth 128 = 0#128 := by decide
  exact ⟨hzero, rfl, rfl, rfl⟩

/-- The digest, from a state that is open for input. -/
theorem blake2bFinal_blake2bUpdate {st : Blake2bState} {t : ℕ} (h : st.Open t) (input : List (BitVec 8)) (outlen : ℕ) :
    blake2bFinal (blake2bUpdate st input) outlen =
      some (((blake2bBlocks st.h t (st.pending ++ input)).toList.flatMap store64Le).take outlen) := by
  obtain ⟨t', hopen, hspec⟩ := blake2bUpdate_spec h input
  have hall := hspec []
  rw [List.append_nil, List.append_nil] at hall
  rw [blake2bFinal_spec hopen, hall]

/-- The digest of a message under a key, or under none. -/
theorem blake2b_eq_some {outlen : ℕ} {key : List (BitVec 8)} (hout : outlen ≤ 64) (hkey : key.length ≤ 64)
    (input : List (BitVec 8)) : blake2b outlen input key = some (blake2bSpec outlen key input) := by
  rw [blake2b, blake2bSpec]
  by_cases hpos : key.length > 0
  · rw [if_pos hpos, if_pos hpos, blake2bInitKey]
    obtain ⟨t, hopen, hspec⟩ := blake2bUpdate_spec (open_blake2bInitParam (blake2bParam outlen key.length))
      (key ++ List.replicate (128 - key.length) 0#8)
    have hall := hspec input
    rw [h_blake2bInitParam hout hkey] at hall
    rw [blake2bFinal_blake2bUpdate hopen, ← hall]
    rfl
  · have hempty : key.length = 0 := by omega
    rw [if_neg hpos, if_neg hpos, blake2bInit, blake2bFinal_blake2bUpdate (open_blake2bInitParam _),
      h_blake2bInitParam hout (Nat.zero_le 64), hempty]
    rfl

theorem length_blake2bSpec {nn : ℕ} (hnn : nn ≤ 64) (key message : List (BitVec 8)) :
    (blake2bSpec nn key message).length = nn := by
  have hwords : ∀ l : List (BitVec 64), (l.flatMap store64Le).length = 8 * l.length := by
    intro l
    induction l with
    | nil => rfl
    | cons w l ih =>
      rw [List.flatMap_cons, List.length_append, ih, store64Le, length_leWriteFrom, List.length_cons]
      omega
  rw [blake2bSpec, List.length_take, hwords, List.Vector.toList_length]
  omega

/-- **The library computes BLAKE2b**: for every message, every key of at most 64 octets and every digest of 1 to 64, and
it refuses all others. -/
theorem blake2b_spec (outlen : ℕ) (input key : List (BitVec 8)) : cryptoGenerichashBlake2b outlen input key =
    if 1 ≤ outlen ∧ outlen ≤ 64 ∧ key.length ≤ 64 then some (blake2bSpec outlen key input) else none := by
  unfold cryptoGenerichashBlake2b
  split
  · next hbad => rw [if_neg (by omega)]
  · next hgood => rw [if_pos (by omega), blake2b_eq_some (by omega) (by omega)]

/-- The digest of "abc". -/
example : blake2bSpec 64 [] [0x61#8, 0x62#8, 0x63#8] =
    [0xba#8, 0x80#8, 0xa5#8, 0x3f#8, 0x98#8, 0x1c#8, 0x4d#8, 0x0d#8, 0x6a#8, 0x27#8, 0x97#8, 0xb6#8, 0x9f#8, 0x12#8,
      0xf6#8, 0xe9#8, 0x4c#8, 0x21#8, 0x2f#8, 0x14#8, 0x68#8, 0x5a#8, 0xc4#8, 0xb7#8, 0x4b#8, 0x12#8, 0xbb#8, 0x6f#8,
      0xdb#8, 0xff#8, 0xa2#8, 0xd1#8, 0x7d#8, 0x87#8, 0xc5#8, 0x39#8, 0x2a#8, 0xab#8, 0x79#8, 0x2d#8, 0xc2#8, 0x52#8,
      0xd5#8, 0xde#8, 0x45#8, 0x33#8, 0xcc#8, 0x95#8, 0x18#8, 0xd3#8, 0x8a#8, 0xa8#8, 0xdb#8, 0xf1#8, 0x92#8, 0x5a#8,
      0xb9#8, 0x23#8, 0x86#8, 0xed#8, 0xd4#8, 0x00#8, 0x99#8, 0x23#8] := by
  rw [blake2bSpec, blake2bBlocks]
  decide +kernel

end VpnTunnel
