import VpnTunnel.Crypto
import VpnTunnel.Libsodium.ChaCha20
import VpnTunnel.Libsodium.Poly1305

/-!
# ChaCha20-Poly1305

This module models `crypto_aead/chacha20poly1305/aead_chacha20poly1305.c` and `crypto_verify/verify.c` of the
libsodium the repository carries in `deps/`: the two calls behind `vpn_crypto_aead_encrypt` and
`vpn_crypto_aead_decrypt`, on real bytes.

## The model

The first block of the key stream gives the key of Poly1305; the message is encrypted from the second block on. The
tag is that of the associated data and the ciphertext, each filled up with zeros to a whole number of blocks, and
of the two lengths. Decryption computes the tag of what it is given and compares it without a branch on its
octets; only when it is the same the ciphertext is decrypted.

The message of a call is at most `2 ^ 38 - 64` octets long: for a longer one the library ends the program
(`cryptoStreamChacha20IetfXorIc`), and the model goes on. A datagram has 2048.

`vendoredAead` is a libsodium with these two functions, and anything for the others. What the rest of the
development assumes about encryption and decryption is then not an assumption any more.

## What is proved

* `cryptoVerifyN_eq_zero` — the comparison without branches is equality.
* `vendoredAead_exact` — a ciphertext and a tag decrypt to a plaintext exactly when they are what it is encrypted
  to: the law `AeadExact`.
* `aead_spec` — encryption is the construction of the standard: the key stream from the second block on, and
  Poly1305 of the associated data, the ciphertext and the lengths under a key from the first block.
-/

namespace VpnTunnel

open Octets

/-! ### Comparing tags -/

/-- `crypto_verify_n`, without vector instructions: 0 when the strings are equal, -1 otherwise. -/
def cryptoVerifyN (x y : List (BitVec 8)) : ℤ :=
  let d := (List.zipWith (· ^^^ ·) x y).foldl (fun d b => d ||| b.setWidth 64) 0#64
  ((1#64 &&& ((d - 1#64) >>> 8)).toNat : ℤ) - 1

/-- `crypto_verify_16`. -/
def cryptoVerify16 (x y : Bytes (BitVec 8) 16) : ℤ := cryptoVerifyN x.toList y.toList

/-- The differences that are collected stay a byte. -/
theorem toNat_foldl_or_lt (bs : List (BitVec 8)) {d : BitVec 64} (hd : d.toNat < 2 ^ 8) :
    (bs.foldl (fun d b => d ||| b.setWidth 64) d).toNat < 2 ^ 8 := by
  induction bs generalizing d with
  | nil => exact hd
  | cons b bs ih =>
    refine ih ?_
    rw [BitVec.toNat_or]
    refine Nat.or_lt_two_pow hd ?_
    rw [BitVec.toNat_setWidth]
    exact (Nat.mod_le _ _).trans_lt b.isLt

/-- No difference is collected exactly when there is none. -/
theorem foldl_or_eq_zero (bs : List (BitVec 8)) (d : BitVec 64) :
    bs.foldl (fun d b => d ||| b.setWidth 64) d = 0#64 ↔ d = 0#64 ∧ ∀ b ∈ bs, b = 0#8 := by
  induction bs generalizing d with
  | nil => simp
  | cons b bs ih =>
    have hb : b.setWidth 64 = 0#64 ↔ b = 0#8 := by
      constructor
      · intro h
        have hnat := congrArg BitVec.toNat h
        rw [BitVec.toNat_setWidth, Nat.mod_eq_of_lt (b.isLt.trans (by decide))] at hnat
        exact BitVec.eq_of_toNat_eq hnat
      · rintro rfl
        rfl
    rw [List.foldl_cons, ih, BitVec.or_eq_zero_iff, hb, List.forall_mem_cons, and_assoc]

theorem zipWith_xor_eq_zero {x y : List (BitVec 8)} (h : x.length = y.length) :
    (∀ b ∈ List.zipWith (· ^^^ ·) x y, b = 0#8) ↔ x = y := by
  induction x generalizing y with
  | nil => simpa using (List.eq_nil_of_length_eq_zero h.symm).symm
  | cons a x ih =>
    cases y with
    | nil => cases h
    | cons b y =>
      rw [List.zipWith_cons_cons, List.forall_mem_cons, ih (Nat.succ.inj h), BitVec.xor_eq_zero_iff, List.cons.injEq]

/-- **The comparison without branches is equality.** -/
theorem cryptoVerifyN_eq_zero {x y : List (BitVec 8)} (h : x.length = y.length) : cryptoVerifyN x y = 0 ↔ x = y := by
  rw [← zipWith_xor_eq_zero h, cryptoVerifyN]
  generalize hd : (List.zipWith (· ^^^ ·) x y).foldl (fun d b => d ||| b.setWidth 64) 0#64 = d
  have hiff := foldl_or_eq_zero (List.zipWith (· ^^^ ·) x y) 0#64
  have hlt := toNat_foldl_or_lt (List.zipWith (· ^^^ ·) x y) (d := 0#64) (by decide)
  rw [hd] at hiff hlt
  by_cases hzero : d = 0#64
  · subst hzero
    exact ⟨fun _ => (hiff.mp rfl).2, fun _ => by decide⟩
  · have hpos : 0 < d.toNat := Nat.pos_of_ne_zero fun h0 => hzero (BitVec.eq_of_toNat_eq h0)
    have hsub : ((d - 1#64) >>> 8) = 0#64 := by
      apply BitVec.eq_of_toNat_eq
      rw [BitVec.toNat_ushiftRight, BitVec.toNat_sub, Nat.shiftRight_eq_div_pow]
      simp
      omega
    refine ⟨fun h0 => ?_, fun hall => absurd (hiff.mpr ⟨rfl, hall⟩) hzero⟩
    rw [hsub] at h0
    simp at h0

/-! ### The two calls -/

theorem length_streamIetfExtRef (clen : ℕ) (n : Bytes (BitVec 8) 12) (k : Bytes (BitVec 8) 32) :
    (streamIetfExtRef clen n k).length = clen := by
  rw [streamIetfExtRef]
  split
  · next h => rw [h, List.length_nil]
  · rw [length_chacha20EncryptBytes, List.length_replicate]

theorem length_streamIetfExtRefXorIc (m : List (BitVec 8)) (n : Bytes (BitVec 8) 12) (ic : BitVec 32)
    (k : Bytes (BitVec 8) 32) : (streamIetfExtRefXorIc m n ic k).length = m.length := by
  rw [streamIetfExtRefXorIc]
  split
  · next h => rw [h, List.length_nil]
  · exact length_chacha20EncryptBytes _ m

/-- What was encrypted from a block on is decrypted from there. -/
theorem streamIetfExtRefXorIc_involutive (m : List (BitVec 8)) (n : Bytes (BitVec 8) 12) (ic : BitVec 32)
    (k : Bytes (BitVec 8) 32) : streamIetfExtRefXorIc (streamIetfExtRefXorIc m n ic k) n ic k = m := by
  rw [streamIetfExtRefXorIc, length_streamIetfExtRefXorIc]
  split
  · next h => rw [List.eq_nil_of_length_eq_zero h]
  · next h => rw [streamIetfExtRefXorIc, if_neg h, chacha20EncryptBytes_involutive]

theorem length_cryptoOnetimeauthPoly1305 (key : Bytes (BitVec 8) 32) (parts : List (List (BitVec 8))) :
    (cryptoOnetimeauthPoly1305 key parts).length = 16 := by
  rw [cryptoOnetimeauthPoly1305, poly1305Finish, storeTag, List.length_append, store64Le, store64Le, length_leWriteFrom,
    length_leWriteFrom]

/-- How many zeros fill up the last block, `(0x10 - len) & 0xf`. -/
def padLen (len : ℕ) : ℕ := ((0x10#64 - BitVec.ofNat 64 len) &&& 0xf#64).toNat

/-- The parts the tag is computed from, in the order of the calls of `crypto_onetimeauth_poly1305_update`. -/
def macParts (ad c : List (BitVec 8)) : List (List (BitVec 8)) :=
  [ad, List.replicate (padLen ad.length) 0#8, c, List.replicate (padLen c.length) 0#8,
    store64Le (BitVec.ofNat 64 ad.length), store64Le (BitVec.ofNat 64 c.length)]

/-- The key of the tag, the first half of `block0`. -/
def onetimeKey (key : Bytes (BitVec 8) 32) (nonce : Bytes (BitVec 8) 12) : Bytes (BitVec 8) 32 :=
  slice (streamIetfExtRef 64 nonce key) 0 32 (by rw [length_streamIetfExtRef]; decide)

/-- The tag of associated data and a ciphertext. -/
def aeadMac (key : Bytes (BitVec 8) 32) (nonce : Bytes (BitVec 8) 12) (ad c : List (BitVec 8)) : Bytes (BitVec 8) 16 :=
  ⟨cryptoOnetimeauthPoly1305 (onetimeKey key nonce) (macParts ad c), length_cryptoOnetimeauthPoly1305 _ _⟩

/-- A message under the key stream from the second block on, `crypto_stream_chacha20_ietf_xor_ic` with counter 1. -/
def aeadStream {n : ℕ} (key : Bytes (BitVec 8) 32) (nonce : Bytes (BitVec 8) 12) (m : Bytes (BitVec 8) n) :
    Bytes (BitVec 8) n :=
  ⟨streamIetfExtRefXorIc m.toList nonce 1#32 key, by rw [length_streamIetfExtRefXorIc, m.toList_length]⟩

/-- `crypto_aead_chacha20poly1305_ietf_encrypt_detached`. -/
def cryptoAeadEncryptDetached {n : ℕ} (key : Bytes (BitVec 8) 32) (nonce : Bytes (BitVec 8) 12) (ad : List (BitVec 8))
    (m : Bytes (BitVec 8) n) : Bytes (BitVec 8) n × Bytes (BitVec 8) 16 :=
  let c := aeadStream key nonce m
  (c, aeadMac key nonce ad c.toList)

/-- `crypto_aead_chacha20poly1305_ietf_decrypt_detached`. -/
def cryptoAeadDecryptDetached {n : ℕ} (key : Bytes (BitVec 8) 32) (nonce : Bytes (BitVec 8) 12) (ad : List (BitVec 8))
    (c : Bytes (BitVec 8) n) (mac : Bytes (BitVec 8) 16) : Option (Bytes (BitVec 8) n) :=
  let computedMac := aeadMac key nonce ad c.toList
  if cryptoVerify16 computedMac mac ≠ 0 then none else some (aeadStream key nonce c)

/-- A libsodium with the encryption and the decryption of the one in `deps/`. -/
def vendoredAead (rest : Sodium (BitVec 8)) : Sodium (BitVec 8) :=
  { rest with
    encryptDetached := cryptoAeadEncryptDetached
    decryptDetached := cryptoAeadDecryptDetached }

/-! ### The laws -/

theorem aeadStream_involutive {n : ℕ} (key : Bytes (BitVec 8) 32) (nonce : Bytes (BitVec 8) 12)
    (m : Bytes (BitVec 8) n) : aeadStream key nonce (aeadStream key nonce m) = m :=
  List.Vector.eq _ _ (streamIetfExtRefXorIc_involutive m.toList nonce 1#32 key)

theorem cryptoVerify16_eq_zero (x y : Bytes (BitVec 8) 16) : cryptoVerify16 x y = 0 ↔ x = y := by
  rw [cryptoVerify16, cryptoVerifyN_eq_zero (by rw [x.toList_length, y.toList_length])]
  exact ⟨fun h => List.Vector.eq _ _ h, fun h => congrArg _ h⟩

theorem cryptoAeadDecryptDetached_encrypt {n : ℕ} (key : Bytes (BitVec 8) 32) (nonce : Bytes (BitVec 8) 12)
    (ad : List (BitVec 8)) (m : Bytes (BitVec 8) n) :
    cryptoAeadDecryptDetached key nonce ad (cryptoAeadEncryptDetached key nonce ad m).1
      (cryptoAeadEncryptDetached key nonce ad m).2 = some m := by
  rw [cryptoAeadDecryptDetached, cryptoAeadEncryptDetached, if_neg (not_not.mpr ((cryptoVerify16_eq_zero _ _).mpr rfl)),
    aeadStream_involutive]

/-- Decryption inverts encryption. -/
theorem vendoredAead_inverts (rest : Sodium (BitVec 8)) : (vendoredAead rest).AeadInverts :=
  fun key nonce ad m => cryptoAeadDecryptDetached_encrypt key nonce ad m

/-- **A ciphertext and a tag decrypt to a plaintext exactly when they are what it is encrypted to.** -/
theorem vendoredAead_exact (rest : Sodium (BitVec 8)) : (vendoredAead rest).AeadExact := by
  intro n key nonce ad m c tag
  show cryptoAeadDecryptDetached key nonce ad c tag = some m ↔ cryptoAeadEncryptDetached key nonce ad m = (c, tag)
  constructor
  · intro h
    rw [cryptoAeadDecryptDetached] at h
    by_cases hmac : cryptoVerify16 (aeadMac key nonce ad c.toList) tag = 0
    · rw [if_neg (not_not.mpr hmac), Option.some.injEq] at h
      subst h
      rw [cryptoAeadEncryptDetached, aeadStream_involutive, (cryptoVerify16_eq_zero _ _).mp hmac]
    · rw [if_pos hmac] at h
      cases h
  · intro h
    have hinv := cryptoAeadDecryptDetached_encrypt key nonce ad m
    rw [h] at hinv
    exact hinv

/-! ### The construction -/

/-- The zeros fill up to a multiple of 16. -/
theorem padLen_eq {len : ℕ} (h : len < 2 ^ 64) : padLen len = (16 - len % 16) % 16 := by
  have hmask : ∀ x : BitVec 64, (x &&& 0xf#64).toNat = x.toNat % 16 := fun x => by
    rw [BitVec.toNat_and]
    exact Nat.and_two_pow_sub_one_eq_mod x.toNat 4
  rw [padLen, hmask, BitVec.toNat_sub, BitVec.toNat_ofNat, BitVec.toNat_ofNat, Nat.mod_eq_of_lt h]
  omega

/-- A string filled up with zeros to whole blocks, `pad16` of the construction. -/
def padded (l : List (BitVec 8)) : List (BitVec 8) := l ++ List.replicate ((16 - l.length % 16) % 16) 0#8

theorem flatten_macParts {ad c : List (BitVec 8)} (had : ad.length < 2 ^ 64) (hc : c.length < 2 ^ 64) :
    (macParts ad c).flatten = padded ad ++ padded c ++ store64Le (BitVec.ofNat 64 ad.length) ++
      store64Le (BitVec.ofNat 64 c.length) := by
  simp only [macParts, List.flatten_cons, List.flatten_nil, List.append_nil, padLen_eq had, padLen_eq hc, padded,
    List.append_assoc]

/-- The key of the tag is the beginning of the key stream. -/
theorem onetimeKey_eq (key : Bytes (BitVec 8) 32) (nonce : Bytes (BitVec 8) 12) :
    (onetimeKey key nonce).toList = (List.range 32).map (keystreamOctet key nonce) := by
  have hstream : streamIetfExtRefXorIc (List.replicate 64 0#8) nonce 0#32 key =
      (List.replicate 64 0#8).mapIdx fun i b => keystreamOctet key nonce (64 * (0#32).toNat + i) ^^^ b :=
    streamIetfExtRefXorIc_eq key nonce (by decide)
  have hslice : (onetimeKey key nonce).toList =
      (streamIetfExtRefXorIc (List.replicate 64 0#8) nonce 0#32 key).take 32 := rfl
  rw [hslice, hstream]
  refine List.ext_getElem? fun i => ?_
  by_cases hi : i < 32
  · have hpos : 64 * (0#32).toNat + i = i := Nat.zero_add i
    rw [List.getElem?_take_of_lt hi, List.getElem?_mapIdx, List.getElem?_replicate_of_lt (by omega), List.getElem?_map,
      List.getElem?_range hi, Option.map_some, Option.map_some, BitVec.xor_zero, hpos]
  · rw [List.getElem?_take_eq_none (by omega), List.getElem?_eq_none (by simpa using hi)]

/-- **Encryption is the construction of the standard.** A message is combined with the key stream from the second
block on; the tag is Poly1305, under the first half of the first block, of the associated data and the ciphertext,
each filled up to whole blocks, and of the two lengths. The counter of the stream does not come to its end. -/
theorem aead_spec {n : ℕ} (key : Bytes (BitVec 8) 32) (nonce : Bytes (BitVec 8) 12) (ad : List (BitVec 8))
    (m : Bytes (BitVec 8) n) (hn : n ≤ 64 * (2 ^ 32 - 1)) (had : ad.length < 2 ^ 64) :
    cryptoStreamChacha20IetfXorIc key nonce m.toList 1#32 = some (cryptoAeadEncryptDetached key nonce ad m).1.toList ∧
      (cryptoAeadEncryptDetached key nonce ad m).1.toList =
        m.toList.mapIdx (fun i b => keystreamOctet key nonce (64 + i) ^^^ b) ∧
      leNat (cryptoAeadEncryptDetached key nonce ad m).2.toList = poly1305Nat (onetimeKey key nonce)
        (padded ad ++ padded (cryptoAeadEncryptDetached key nonce ad m).1.toList ++
          store64Le (BitVec.ofNat 64 ad.length) ++ store64Le (BitVec.ofNat 64 n)) ∧
      (onetimeKey key nonce).toList = (List.range 32).map (keystreamOctet key nonce) := by
  have hroom : (1#32).toNat + (m.toList.length + 63) / 64 ≤ 2 ^ 32 := by
    rw [m.toList_length]
    show 1 + (n + 63) / 64 ≤ 2 ^ 32
    omega
  have hcipher : (cryptoAeadEncryptDetached key nonce ad m).1.toList =
      m.toList.mapIdx (fun i b => keystreamOctet key nonce (64 + i) ^^^ b) := streamIetfExtRefXorIc_eq key nonce hroom
  refine ⟨?_, hcipher, ?_, onetimeKey_eq key nonce⟩
  · rw [cryptoStreamChacha20IetfXorIc_eq key nonce (by rw [m.toList_length]; omega), if_pos hroom, hcipher]
    rfl
  · have hparts := flatten_macParts had (c := (cryptoAeadEncryptDetached key nonce ad m).1.toList)
      (by rw [List.Vector.toList_length]; omega)
    rw [List.Vector.toList_length] at hparts
    rw [← hparts, ← leNat_poly1305Finish_absorbed, ← cryptoOnetimeauthPoly1305_eq]
    rfl

/-- A key of different octets. -/
def sampleAeadKey : Bytes (BitVec 8) 32 := List.Vector.ofFn fun i => BitVec.ofNat 8 (0x80 + i)

/-- A nonce of different octets. -/
def sampleAeadNonce : Bytes (BitVec 8) 12 := List.Vector.ofFn fun i => BitVec.ofNat 8 (7 + i)

/-- A message that ends in its second block. -/
def sampleAeadMessage : Bytes (BitVec 8) 70 := List.Vector.ofFn fun i => BitVec.ofNat 8 i

/-- What it is sealed to, with associated data. -/
def sampleAeadSealed : Bytes (BitVec 8) 70 × Bytes (BitVec 8) 16 :=
  cryptoAeadEncryptDetached sampleAeadKey sampleAeadNonce [0x50#8, 0x51#8, 0x52#8] sampleAeadMessage

/-- So it is for that message. -/
theorem aead_spec_sample :
    cryptoStreamChacha20IetfXorIc sampleAeadKey sampleAeadNonce sampleAeadMessage.toList 1#32 =
      some sampleAeadSealed.1.toList ∧
    sampleAeadSealed.1.toList =
      sampleAeadMessage.toList.mapIdx (fun i b => keystreamOctet sampleAeadKey sampleAeadNonce (64 + i) ^^^ b) ∧
    leNat sampleAeadSealed.2.toList = poly1305Nat (onetimeKey sampleAeadKey sampleAeadNonce)
      (padded [0x50#8, 0x51#8, 0x52#8] ++ padded sampleAeadSealed.1.toList ++ store64Le (BitVec.ofNat 64 3) ++
        store64Le (BitVec.ofNat 64 70)) ∧
    (onetimeKey sampleAeadKey sampleAeadNonce).toList =
      (List.range 32).map (keystreamOctet sampleAeadKey sampleAeadNonce) :=
  aead_spec sampleAeadKey sampleAeadNonce [0x50#8, 0x51#8, 0x52#8] sampleAeadMessage (by decide) (by decide)

end VpnTunnel
