import VpnTunnel.Crypto
import VpnTunnel.Lib.Memory
import VpnTunnel.Libsodium.Blake2b

/-!
# Key derivation in place

The handshake keeps its chaining key in one buffer and derives the next one into it: `vpn_kdf1(ck, ck, …)`,
`vpn_kdf2(ck, kappa, ck, …)`. The functions of `src/kdf.c` thus get pointers to buffers that are the same, and they
read one of their outputs back to derive the next. This module models them on one memory (`Heap`), with the pointers
they are given, and with the hash of the libsodium in `deps/`.

## The model

The local buffers `prk` and `buf` are not in that memory, as no caller can have a pointer to them. The three functions
differ in the number of their outputs only (`kdfInto`): the first is the digest of a counter, and each of the others
that of the output before, as it is read back from memory, and a counter. A `NULL` input has length 0.

## What is proved

* `kdfInto_eq` — the outputs are written one after the other, and are those of the memory as it was: nothing depends
  on where the outputs are, and whether they overlap the key or the input.
* `kdf_in_place` — with the hash in `deps/`, they are the digests that the comments of `src/kdf.c` state, and what the
  rest of this development takes `vpn_kdf1` and `vpn_kdf2` to return.
-/

namespace VpnTunnel

open Octets Memory

section

variable {β : Type} [Octet β] (S : Sodium β)

/-! ### The model -/

/-- Write outputs one after the other, each derived from the one before (at first from `message`) and a counter. -/
def expandInto (prk : Bytes β 32) : List β → BitVec 8 → List ℕ → Heap β → Heap β
  | _, _, [], h => h
  | message, counter, out :: outs, h =>
    let h := h.write out (S.generichash 32 (message ++ [ofByte counter]) prk.toList).toList
    -- `memcpy(buf, out, VPN_KEY_LEN)`
    expandInto prk (h.read out 32).toList (counter + 1) outs h

/-- Extract a key from the input, and expand it. -/
def kdfInto (outs : List ℕ) (key input inputLen : ℕ) (h : Heap β) : Heap β :=
  let prk := S.generichash 32 (h.read input inputLen).toList (h.read key 32).toList
  expandInto S prk [] 0x01#8 outs h

/-- `vpn_kdf1`. -/
def vpnKdf1Into (out1 key input inputLen : ℕ) : Heap β → Heap β := kdfInto S [out1] key input inputLen

/-- `vpn_kdf2`. -/
def vpnKdf2Into (out1 out2 key input inputLen : ℕ) : Heap β → Heap β := kdfInto S [out1, out2] key input inputLen

/-- `vpn_kdf3`, which the handshake has no use for. -/
def vpnKdf3Into (out1 out2 out3 key input inputLen : ℕ) : Heap β → Heap β :=
  kdfInto S [out1, out2, out3] key input inputLen

/-! ### Outputs as values -/

/-- The first `n` outputs. -/
def expand (prk : Bytes β 32) : List β → BitVec 8 → ℕ → List (Bytes β 32)
  | _, _, 0 => []
  | message, counter, n + 1 =>
    let out := S.generichash 32 (message ++ [ofByte counter]) prk.toList
    out :: expand prk out.toList (counter + 1) n

/-- The outputs are written one after the other. -/
theorem expandInto_eq (prk : Bytes β 32) (message : List β) (counter : BitVec 8) (outs : List ℕ) (h : Heap β) :
    expandInto S prk message counter outs h =
      (outs.zip (expand S prk message counter outs.length)).foldl (fun h w => h.write w.1 w.2.toList) h := by
  induction outs generalizing message counter h with
  | nil => rfl
  | cons out outs ih =>
    -- what is read back is what was just written, so that no later output depends on the memory
    rw [expandInto, ih, Heap.read_write]
    rfl

/-- **Where the outputs are makes no difference**: they are those of the memory as it was. -/
theorem kdfInto_eq (outs : List ℕ) (key input inputLen : ℕ) (h : Heap β) : kdfInto S outs key input inputLen h =
    (outs.zip (expand S (S.generichash 32 (h.read input inputLen).toList (h.read key 32).toList) [] 0x01#8
      outs.length)).foldl (fun h w => h.write w.1 w.2.toList) h :=
  expandInto_eq S _ _ _ _ _

end

/-! ### The hash of the library -/

/-- Octets as a buffer of `n`, or what was there if they are not that many. -/
def fill {n : ℕ} (buf : Bytes (BitVec 8) n) (l : List (BitVec 8)) : Bytes (BitVec 8) n :=
  if h : l.length = n then h ▸ ofList l else buf

theorem toList_fill {n : ℕ} (buf : Bytes (BitVec 8) n) {l : List (BitVec 8)} (h : l.length = n) :
    (fill buf l).toList = l := by
  subst h
  rw [fill, dif_pos rfl, toList_ofList]

/-- A libsodium with the hash of the one in `deps/`; where that refuses the lengths, the buffer holds anything. -/
def vendoredHash (rest : Sodium (BitVec 8)) : Sodium (BitVec 8) :=
  { rest with
    generichash := fun outLen msg key =>
      fill (rest.generichash outLen msg key) ((cryptoGenerichashBlake2b outLen msg key).getD []) }

theorem generichash_vendoredHash {rest : Sodium (BitVec 8)} {outLen : ℕ} {msg key : List (BitVec 8)}
    (hpos : 1 ≤ outLen) (hout : outLen ≤ 64) (hkey : key.length ≤ 64) :
    ((vendoredHash rest).generichash outLen msg key).toList = blake2bSpec outLen key msg := by
  have hdigest : cryptoGenerichashBlake2b outLen msg key = some (blake2bSpec outLen key msg) := by
    rw [cryptoGenerichashBlake2b, if_neg (by omega), blake2b_eq_some hout hkey]
  simp only [vendoredHash, hdigest, Option.getD_some]
  rw [toList_fill _ (length_blake2bSpec hout key msg)]

/-- A digest under a key that is itself a digest. -/
theorem generichash_vendoredHash_key {rest : Sodium (BitVec 8)} {msg : List (BitVec 8)} (key : Bytes (BitVec 8) 32) :
    ((vendoredHash rest).generichash 32 msg key.toList).toList = blake2bSpec 32 key.toList msg :=
  generichash_vendoredHash (by decide) (by decide) (by rw [key.toList_length]; decide)

/-- **The keys are derived as `src/kdf.c` says**, in place or not: wherever the outputs, the key and the input are in
memory, the outputs are written in order, each with the digest that its place in the chain demands, and nothing else is
changed. -/
theorem kdf_in_place (rest : Sodium (BitVec 8)) (h : Heap (BitVec 8)) (out1 out2 out3 key input inputLen : ℕ) :
    let S := vendoredHash rest
    let prk := blake2bSpec 32 (h.read key 32).toList (h.read input inputLen).toList
    let t1 := blake2bSpec 32 prk [0x01#8]
    let t2 := blake2bSpec 32 prk (t1 ++ [0x02#8])
    let t3 := blake2bSpec 32 prk (t2 ++ [0x03#8])
    vpnKdf1Into S out1 key input inputLen h = h.write out1 t1 ∧
      vpnKdf2Into S out1 out2 key input inputLen h = (h.write out1 t1).write out2 t2 ∧
      vpnKdf3Into S out1 out2 out3 key input inputLen h = ((h.write out1 t1).write out2 t2).write out3 t3 ∧
      (vpnKdf1 S (h.read key 32) (h.read input inputLen).toList).toList = t1 ∧
      (vpnKdf2 S (h.read key 32) (h.read input inputLen).toList).1.toList = t1 ∧
      (vpnKdf2 S (h.read key 32) (h.read input inputLen).toList).2.toList = t2 := by
  intro S prk t1 t2 t3
  generalize hk : S.generichash 32 (h.read input inputLen).toList (h.read key 32).toList = k
  have hprk : k.toList = prk := by rw [← hk, generichash_vendoredHash_key]
  have hnext : ∀ msg, (S.generichash 32 msg k.toList).toList = blake2bSpec 32 prk msg := by
    intro msg
    rw [generichash_vendoredHash_key, hprk]
  -- each output is the digest of the one before and the counter
  have h1 : (S.generichash 32 [0x01#8] k.toList).toList = t1 := hnext _
  have h2 : (S.generichash 32 ((S.generichash 32 [0x01#8] k.toList).toList ++ [0x02#8]) k.toList).toList = t2 := by
    rw [hnext, h1]
  have h3 : (S.generichash 32 ((S.generichash 32 ((S.generichash 32 [0x01#8] k.toList).toList ++ [0x02#8])
      k.toList).toList ++ [0x03#8]) k.toList).toList = t3 := by
    rw [hnext, h2]
  refine ⟨?_, ?_, ?_, ?_, ?_, ?_⟩
  · rw [vpnKdf1Into, kdfInto_eq, hk, ← h1]
    rfl
  · rw [vpnKdf2Into, kdfInto_eq, hk, ← h1, ← h2]
    rfl
  · rw [vpnKdf3Into, kdfInto_eq, hk, ← h1, ← h2, ← h3]
    rfl
  · rw [vpnKdf1, hk]
    exact h1
  · rw [vpnKdf2, hk]
    exact h1
  · rw [vpnKdf2, hk]
    exact h2

end VpnTunnel
