import VpnTunnel.Config
import VpnTunnel.Packet

/-!
# Cryptographic primitives

This module models `src/crypto.c` and `src/kdf.c`: the thin layer over libsodium that everything
cryptographic in the tunnel passes through.

    Key Exchange : X25519   (Curve25519 Diffie-Hellman)
    AEAD Cipher  : ChaCha20-Poly1305 (IETF variant, 96-bit nonce)
    Hash / MAC   : BLAKE2b  (used as the KDF base and transcript hash)
    Nonce        : 12 bytes = 4 zero bytes || 8-byte counter (Little-Endian)

## The model

libsodium itself is a parameter, the record `Sodium` of the functions that are called. Over real
bytes it stands for the library; over other octets for an ideal version of it. What a result needs to
know about the library is a named law, a property of the record: `AeadInverts` (decryption inverts
encryption), `AeadExact` (and nothing else decrypts), `Correct` (and X25519 commutes), `Symbolic` (no
collisions, no forgeries), `DhByPoint` (X25519 fails on the public key alone). No hash of bytes is
`Symbolic`; what can be asked of one is that finitely many calls do not collide (`CollisionFree`), and the
calls a key derivation makes are listed for that (`vpnKdf1Calls`, `vpnKdf2Calls`).

`crypto_scalarmult` is the only call that can fail besides a refused tag; encryption and hashing of
buffers of the sizes used here cannot, and the `NULL` checks are not reached.

## What is proved

* `vpnCryptoFormatNonce_injective` — the nonce determines the counter.
* `Sodium.CollisionFree.kdf1`, `.kdf2_fst`, `.kdf2_snd` — where the calls of two key derivations do not
  collide, each output determines the key and the input that went in. `vpnKdf1_injective`,
  `vpnKdf2_fst_injective` and `vpnKdf2_snd_injective` say the same in the symbolic reading.
-/

namespace VpnTunnel

open Octets

/-- The functions of libsodium the tunnel calls. -/
structure Sodium (β : Type) where
  /-- A digest of the given length, of a message under a key (the empty key: unkeyed), `crypto_generichash`. -/
  generichash : (outLen : ℕ) → (msg key : List β) → Bytes β outLen
  /-- Key, nonce, associated data and plaintext to ciphertext and tag,
  `crypto_aead_chacha20poly1305_ietf_encrypt_detached`. -/
  encryptDetached : {n : ℕ} → Bytes β 32 → Bytes β 12 → List β → Bytes β n → Bytes β n × Bytes β 16
  /-- Key, nonce, associated data, ciphertext and tag to plaintext, or a refusal,
  `crypto_aead_chacha20poly1305_ietf_decrypt_detached`. -/
  decryptDetached : {n : ℕ} → Bytes β 32 → Bytes β 12 → List β → Bytes β n → Bytes β 16 → Option (Bytes β n)
  /-- Private key and public key to shared secret, `crypto_scalarmult`. -/
  scalarmult : (n p : Bytes β 32) → Option (Bytes β 32)
  /-- Private key to public key, `crypto_scalarmult_base`. -/
  scalarmultBase : (n : Bytes β 32) → Bytes β 32

variable {β : Type}

/-! ### Laws of the library -/

/-- Decryption inverts encryption, under the same key, nonce and associated data. -/
def Sodium.AeadInverts (S : Sodium β) : Prop :=
  ∀ {n : ℕ} (key : Bytes β 32) (nonce : Bytes β 12) (ad : List β) (m : Bytes β n),
    S.decryptDetached key nonce ad (S.encryptDetached key nonce ad m).1 (S.encryptDetached key nonce ad m).2 = some m

/-- A ciphertext and tag decrypt to a plaintext exactly when they are what it is encrypted to: the tag is
recomputed from the ciphertext, and the key stream is the same both ways. -/
def Sodium.AeadExact (S : Sodium β) : Prop :=
  ∀ {n : ℕ} (key : Bytes β 32) (nonce : Bytes β 12) (ad : List β) (m c : Bytes β n) (tag : Bytes β 16),
    S.decryptDetached key nonce ad c tag = some m ↔ S.encryptDetached key nonce ad m = (c, tag)

/-- The library is correct: both ends of a key exchange compute the same secret, and decryption
inverts encryption. -/
structure Sodium.Correct (S : Sodium β) : Prop where
  /-- `dh(a, pub b) = dh(b, pub a)`. -/
  dh_comm : ∀ a b, S.scalarmult a (S.scalarmultBase b) = S.scalarmult b (S.scalarmultBase a)
  /-- Decrypting gives the plaintext. -/
  decrypt_encrypt : S.AeadInverts

/-- The symbolic reading: digests and ciphertexts are terms. -/
structure Sodium.Symbolic (S : Sodium β) : Prop where
  /-- A digest determines its key and message. -/
  generichash_inj : ∀ {msg msg' key key' : List β},
    S.generichash 32 msg key = S.generichash 32 msg' key' → key = key' ∧ msg = msg'
  /-- A ciphertext and tag determine everything they were made from. -/
  encrypt_inj : ∀ {n : ℕ} {key key' : Bytes β 32} {nonce nonce' : Bytes β 12} {ad ad' : List β} {m m' : Bytes β n},
    S.encryptDetached key nonce ad m = S.encryptDetached key' nonce' ad' m' →
      key = key' ∧ nonce = nonce' ∧ ad = ad' ∧ m = m'
  /-- Decryption succeeds only on an output of encryption under the same key, nonce and associated data. -/
  encrypt_of_decrypt : ∀ {n : ℕ} {key : Bytes β 32} {nonce : Bytes β 12} {ad : List β} {c m : Bytes β n}
    {tag : Bytes β 16}, S.decryptDetached key nonce ad c tag = some m → S.encryptDetached key nonce ad m = (c, tag)

/-- No two of these calls of the hash collide; a call is a message and a key. -/
def Sodium.CollisionFree (S : Sodium β) (calls : List (List β × List β)) : Prop :=
  ∀ x ∈ calls, ∀ y ∈ calls, S.generichash 32 x.1 x.2 = S.generichash 32 y.1 y.2 → x = y

instance [DecidableEq β] (S : Sodium β) (calls : List (List β × List β)) : Decidable (S.CollisionFree calls) :=
  inferInstanceAs (Decidable (∀ x ∈ calls, ∀ y ∈ calls, _ → _))

/-- In the symbolic reading no calls collide. -/
theorem Sodium.Symbolic.collisionFree {S : Sodium β} (hS : S.Symbolic) (calls : List (List β × List β)) :
    S.CollisionFree calls :=
  fun _ _ _ _ h => Prod.ext (hS.generichash_inj h).2 (hS.generichash_inj h).1

/-- Fewer calls collide no more. -/
theorem Sodium.CollisionFree.mono {S : Sodium β} {calls calls' : List (List β × List β)} (h : S.CollisionFree calls)
    (hsub : calls' ⊆ calls) : S.CollisionFree calls' :=
  fun x hx y hy => h x (hsub hx) y (hsub hy)

/-- X25519 fails on the public key alone: libsodium refuses the points of small order. -/
def Sodium.DhByPoint (S : Sodium β) : Prop :=
  ∀ a b p, S.scalarmult a p = none → S.scalarmult b p = none

/-! ### `crypto.c` -/

/-- The nonce of a counter, `vpn_crypto_format_nonce`. -/
def vpnCryptoFormatNonce [Octet β] (counter : BitVec 64) : Bytes β 12 :=
  join (zeroBytes 4) (le64Write counter) rfl

/-- Different counters have different nonces. -/
theorem vpnCryptoFormatNonce_injective [Octet β] :
    Function.Injective (vpnCryptoFormatNonce : BitVec 64 → Bytes β 12) := by
  intro c c' h
  rw [← le64Read_le64Write (β := β) c, (join_inj h).2, le64Read_le64Write]

variable (S : Sodium β)

/-- Encrypt under the nonce of a counter, `vpn_crypto_aead_encrypt`. -/
def vpnCryptoAeadEncrypt [Octet β] {n : ℕ} (plaintext : Bytes β n) (ad : List β) (counter : BitVec 64)
    (key : Bytes β 32) : Bytes β n × Bytes β 16 :=
  S.encryptDetached key (vpnCryptoFormatNonce counter) ad plaintext

/-- Verify and decrypt under the nonce of a counter, `vpn_crypto_aead_decrypt`. -/
def vpnCryptoAeadDecrypt [Octet β] {n : ℕ} (ciphertext : Bytes β n) (mac : Bytes β 16) (ad : List β)
    (counter : BitVec 64) (key : Bytes β 32) : Except Errno (Bytes β n) :=
  match S.decryptDetached key (vpnCryptoFormatNonce counter) ad ciphertext mac with
  | some plaintext => .ok plaintext
  | none => .error .ebadmsg

/-- The public key of a private key drawn at random, `vpn_crypto_generate_keypair`. -/
def vpnCryptoGenerateKeypair (privateKey : Bytes β 32) : Bytes β 32 := S.scalarmultBase privateKey

/-- The shared secret, `vpn_crypto_dh`. -/
def vpnCryptoDh (theirPublicKey myPrivateKey : Bytes β 32) : Except Errno (Bytes β 32) :=
  match S.scalarmult myPrivateKey theirPublicKey with
  | some sharedSecret => .ok sharedSecret
  | none => .error .ebadmsg

/-- Overwrite the first `len` octets of a buffer with zeros, `vpn_crypto_memzero`. -/
def vpnCryptoMemzero [Octet β] {n : ℕ} (buf : Bytes β n) (len : ℕ) : Bytes β n :=
  ⟨buf.toList.mapIdx fun i b => if i < len then ofByte 0 else b, by simp⟩

/-- Unkeyed BLAKE2b, `vpn_crypto_hash`. -/
def vpnCryptoHash (input : List β) : Bytes β 32 := S.generichash 32 input []

/-- Keyed BLAKE2b cut to 16 octets, `vpn_crypto_mac16`. -/
def vpnCryptoMac16 (key : Bytes β 32) (input : List β) : Bytes β 16 := S.generichash 16 input key.toList

/-! ### `kdf.c` -/

/-- One key from a chaining key and some input, `vpn_kdf1`. -/
def vpnKdf1 [Octet β] (key : Bytes β 32) (input : List β) : Bytes β 32 :=
  let prk := S.generichash 32 input key.toList
  S.generichash 32 [ofByte 0x01#8] prk.toList

/-- Two keys from a chaining key and some input, `vpn_kdf2`. -/
def vpnKdf2 [Octet β] (key : Bytes β 32) (input : List β) : Bytes β 32 × Bytes β 32 :=
  let prk := S.generichash 32 input key.toList
  let out1 := S.generichash 32 [ofByte 0x01#8] prk.toList
  (out1, S.generichash 32 (out1.toList ++ [ofByte 0x02#8]) prk.toList)

/-- The calls of the hash that `vpn_kdf1` makes: to extract, and to expand. -/
def vpnKdf1Calls [Octet β] (key : Bytes β 32) (input : List β) : List (List β × List β) :=
  [(input, key.toList), ([ofByte 0x01#8], (S.generichash 32 input key.toList).toList)]

/-- Those that `vpn_kdf2` makes: the same, and one for the second output. -/
def vpnKdf2Calls [Octet β] (key : Bytes β 32) (input : List β) : List (List β × List β) :=
  vpnKdf1Calls S key input ++
    [((vpnKdf1 S key input).toList ++ [ofByte 0x02#8], (S.generichash 32 input key.toList).toList)]

/-! ### Spec lemmas -/

section

variable {S} {n : ℕ}

theorem vpnCryptoDh_eq_ok {p a z : Bytes β 32} : vpnCryptoDh S p a = .ok z ↔ S.scalarmult a p = some z := by
  unfold vpnCryptoDh
  cases S.scalarmult a p <;> simp

variable [Octet β]

/-- A buffer that is overwritten in full is all zero. -/
theorem vpnCryptoMemzero_all (buf : Bytes β n) : vpnCryptoMemzero buf n = zeroBytes n := by
  refine List.Vector.eq _ _ (List.eq_replicate_iff.mpr ⟨by simp, fun b hb => ?_⟩)
  obtain ⟨i, hi, rfl⟩ := List.mem_mapIdx.mp hb
  exact if_pos (by simpa using hi)

theorem vpnCryptoAeadDecrypt_eq_ok {c m : Bytes β n} {tag : Bytes β 16} {ad : List β} {counter : BitVec 64}
    {key : Bytes β 32} : vpnCryptoAeadDecrypt S c tag ad counter key = .ok m ↔
      S.decryptDetached key (vpnCryptoFormatNonce counter) ad c tag = some m := by
  unfold vpnCryptoAeadDecrypt
  cases S.decryptDetached key (vpnCryptoFormatNonce counter) ad c tag <;> simp

/-- What was encrypted is decrypted. -/
theorem Sodium.AeadInverts.aeadDecrypt_aeadEncrypt (hS : S.AeadInverts) (m : Bytes β n) (ad : List β)
    (counter : BitVec 64) (key : Bytes β 32) :
    vpnCryptoAeadDecrypt S (vpnCryptoAeadEncrypt S m ad counter key).1 (vpnCryptoAeadEncrypt S m ad counter key).2
      ad counter key = .ok m :=
  vpnCryptoAeadDecrypt_eq_ok.mpr (hS key _ ad m)

/-- A plaintext is encrypted alike when it is only known as a list. -/
theorem vpnCryptoAeadEncrypt_ofList (m : Bytes β n) (ad : List β) (counter : BitVec 64) (key : Bytes β 32) :
    (vpnCryptoAeadEncrypt S (ofList m.toList) ad counter key).1.toList =
        (vpnCryptoAeadEncrypt S m ad counter key).1.toList ∧
      (vpnCryptoAeadEncrypt S (ofList m.toList) ad counter key).2 = (vpnCryptoAeadEncrypt S m ad counter key).2 := by
  obtain ⟨l, rfl⟩ := m
  exact ⟨rfl, rfl⟩

/-- A ciphertext is decrypted alike when it is only known as a list, as after parsing. -/
theorem vpnCryptoAeadDecrypt_ofList {c m : Bytes β n} {tag : Bytes β 16} {ad : List β} {counter : BitVec 64}
    {key : Bytes β 32} (h : vpnCryptoAeadDecrypt S c tag ad counter key = .ok m) :
    ∃ m' : Bytes β c.toList.length,
      vpnCryptoAeadDecrypt S (ofList c.toList) tag ad counter key = .ok m' ∧ m'.toList = m.toList := by
  obtain ⟨l, rfl⟩ := c
  exact ⟨m, h, rfl⟩

end

section

variable {S} {key key' : Bytes β 32} {input input' : List β} {calls : List (List β × List β)}

/-- Extracting from a key and an input loses neither. -/
theorem Sodium.CollisionFree.extract (hS : S.CollisionFree calls) (hx : (input, key.toList) ∈ calls)
    (hy : (input', key'.toList) ∈ calls)
    (h : S.generichash 32 input key.toList = S.generichash 32 input' key'.toList) : key = key' ∧ input = input' := by
  have hcall := hS _ hx _ hy h
  exact ⟨List.Vector.eq _ _ (congrArg Prod.snd hcall), congrArg Prod.fst hcall⟩

variable [Octet β]

/-- What is expanded from an extracted key, by any two calls, determines what was extracted from. -/
theorem Sodium.CollisionFree.expand (hS : S.CollisionFree calls) (hx : vpnKdf1Calls S key input ⊆ calls)
    (hy : vpnKdf1Calls S key' input' ⊆ calls) {msg msg' : List β}
    (hmsg : (msg, (S.generichash 32 input key.toList).toList) ∈ calls)
    (hmsg' : (msg', (S.generichash 32 input' key'.toList).toList) ∈ calls)
    (h : S.generichash 32 msg (S.generichash 32 input key.toList).toList =
      S.generichash 32 msg' (S.generichash 32 input' key'.toList).toList) : key = key' ∧ input = input' :=
  hS.extract (hx List.mem_cons_self) (hy List.mem_cons_self) (hS.extract hmsg hmsg' h).1

theorem Sodium.CollisionFree.kdf1 (hS : S.CollisionFree calls) (hx : vpnKdf1Calls S key input ⊆ calls)
    (hy : vpnKdf1Calls S key' input' ⊆ calls) (h : vpnKdf1 S key input = vpnKdf1 S key' input') :
    key = key' ∧ input = input' :=
  hS.expand hx hy (hx (List.mem_cons_of_mem _ List.mem_cons_self)) (hy (List.mem_cons_of_mem _ List.mem_cons_self)) h

theorem Sodium.CollisionFree.kdf2_fst (hS : S.CollisionFree calls) (hx : vpnKdf2Calls S key input ⊆ calls)
    (hy : vpnKdf2Calls S key' input' ⊆ calls) (h : (vpnKdf2 S key input).1 = (vpnKdf2 S key' input').1) :
    key = key' ∧ input = input' :=
  hS.kdf1 (List.append_subset.mp hx).1 (List.append_subset.mp hy).1 h

theorem Sodium.CollisionFree.kdf2_snd (hS : S.CollisionFree calls) (hx : vpnKdf2Calls S key input ⊆ calls)
    (hy : vpnKdf2Calls S key' input' ⊆ calls) (h : (vpnKdf2 S key input).2 = (vpnKdf2 S key' input').2) :
    key = key' ∧ input = input' :=
  hS.expand (List.append_subset.mp hx).1 (List.append_subset.mp hy).1
    ((List.append_subset.mp hx).2 List.mem_cons_self) ((List.append_subset.mp hy).2 List.mem_cons_self) h

end

section

variable {S} {key key' : Bytes β 32} {input input' : List β} (hS : S.Symbolic)

include hS

/-- A digest determines what was hashed. -/
theorem vpnCryptoHash_injective (h : vpnCryptoHash S input = vpnCryptoHash S input') : input = input' :=
  (hS.generichash_inj h).2

variable [Octet β]

theorem vpnKdf1_injective (h : vpnKdf1 S key input = vpnKdf1 S key' input') : key = key' ∧ input = input' :=
  (hS.collisionFree _).kdf1 (List.subset_append_left ..) (List.subset_append_right ..) h

theorem vpnKdf2_fst_injective (h : (vpnKdf2 S key input).1 = (vpnKdf2 S key' input').1) :
    key = key' ∧ input = input' :=
  (hS.collisionFree _).kdf2_fst (List.subset_append_left ..) (List.subset_append_right ..) h

theorem vpnKdf2_snd_injective (h : (vpnKdf2 S key input).2 = (vpnKdf2 S key' input').2) :
    key = key' ∧ input = input' :=
  (hS.collisionFree _).kdf2_snd (List.subset_append_left ..) (List.subset_append_right ..) h

end

end VpnTunnel
