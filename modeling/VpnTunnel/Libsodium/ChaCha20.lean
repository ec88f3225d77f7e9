import VpnTunnel.Lib.LittleEndian

/-!
# ChaCha20

This module models `crypto_stream/chacha20/ref/chacha20_ref.c` of the libsodium the repository carries in
`deps/`: the key stream under every datagram of the tunnel, in its IETF form with a nonce of 96 bits and a block
counter of 32.

## The model

The sixteen words of `chacha_ctx` are a vector, and a macro that assigns to its arguments is a function of the
whole vector. `chacha20_encrypt_bytes` goes through the message in blocks of 64 octets; the last one, when it is
shorter, is copied to a cleared block, encrypted there and copied back. The words of a block are combined with the
message as words, read and stored in little-endian order.

The counter is the words 12 and 13: when word 12 comes to 0, word 13 is increased. In the IETF form word 13 is no
counter but the first word of the nonce.

## What is proved

* `chacha20EncryptBytes_eq` — encryption combines the message, octet by octet, with the key stream of the context,
  whatever its length.
* `chacha20EncryptBytes_involutive` — encrypting twice gives the message again.
* `iterate_advance` — as long as the counter does not come to its end, going on to the next block changes nothing
  but the counter: the nonce stays what it was.
-/

namespace VpnTunnel

open Octets

/-- The state of the cipher, `chacha_ctx`: constants, key, counter and nonce. -/
abbrev ChachaCtx := List.Vector (BitVec 32) 16

/-- Read a 32-bit word, `LOAD32_LE`. -/
def load32Le (src : List (BitVec 8)) : BitVec 32 := leReadFrom 32 0 src

/-- Write a 32-bit word, `STORE32_LE`. -/
def store32Le (w : BitVec 32) : List (BitVec 8) := leWriteFrom w 0 4

@[simp] theorem length_store32Le (w : BitVec 32) : (store32Le w).length = 4 := length_leWriteFrom w 0 4

/-- `ROTL32`. -/
def rotl32 (x : BitVec 32) (b : ℕ) : BitVec 32 := x <<< b ||| x >>> (32 - b)

/-- `QUARTERROUND`, on four words of the state. -/
def quarterround (x : ChachaCtx) (a b c d : Fin 16) : ChachaCtx :=
  let x := x.set a (x.get a + x.get b)
  let x := x.set d (rotl32 (x.get d ^^^ x.get a) 16)
  let x := x.set c (x.get c + x.get d)
  let x := x.set b (rotl32 (x.get b ^^^ x.get c) 12)
  let x := x.set a (x.get a + x.get b)
  let x := x.set d (rotl32 (x.get d ^^^ x.get a) 8)
  let x := x.set c (x.get c + x.get d)
  x.set b (rotl32 (x.get b ^^^ x.get c) 7)

/-- Two of the twenty rounds: one on the columns, one on the diagonals. -/
def doubleround (x : ChachaCtx) : ChachaCtx :=
  let x := quarterround x 0 4 8 12
  let x := quarterround x 1 5 9 13
  let x := quarterround x 2 6 10 14
  let x := quarterround x 3 7 11 15
  let x := quarterround x 0 5 10 15
  let x := quarterround x 1 6 11 12
  let x := quarterround x 2 7 8 13
  quarterround x 3 4 9 14

/-- The words of a block of the key stream: twenty rounds, and the input added. -/
def chachaBlock (j : ChachaCtx) : ChachaCtx := List.Vector.map₂ (· + ·) (doubleround^[10] j) j

/-- Combine words with the octets of a message, `XOR(x, LOAD32_LE(m))` and `STORE32_LE` for each word. -/
def xorWords : List (BitVec 32) → List (BitVec 8) → List (BitVec 8)
  | [], _ => []
  | x :: xs, m => store32Le (x ^^^ load32Le (m.take 4)) ++ xorWords xs (m.drop 4)

/-- Go on to the next block. -/
def advance (j : ChachaCtx) : ChachaCtx :=
  let j := j.set 12 (j.get 12 + 1)
  if j.get 12 = 0 then j.set 13 (j.get 13 + 1) else j

/-- The loop of `chacha20_encrypt_bytes`. -/
def encryptLoop (j : ChachaCtx) (m : List (BitVec 8)) : ChachaCtx × List (BitVec 8) :=
  if m.length < 64 then
    -- a short block is encrypted in `tmp`
    let tmp := m ++ List.replicate (64 - m.length) 0#8
    (advance j, (xorWords (chachaBlock j).toList tmp).take m.length)
  else
    let c := xorWords (chachaBlock j).toList (m.take 64)
    if m.length ≤ 64 then (advance j, c)
    else
      let rest := encryptLoop (advance j) (m.drop 64)
      (rest.1, c ++ rest.2)
termination_by m.length
decreasing_by rw [List.length_drop]; omega

/-- Encrypt or decrypt, `chacha20_encrypt_bytes`: the context after the call, and the output. -/
def chacha20EncryptBytes (ctx : ChachaCtx) (m : List (BitVec 8)) : ChachaCtx × List (BitVec 8) :=
  if m.length = 0 then (ctx, []) else encryptLoop ctx m

/-- Eight words of a key. -/
def keyWords (k : Bytes (BitVec 8) 32) : List.Vector (BitVec 32) 8 :=
  List.Vector.ofFn fun i => load32Le ((k.toList.drop (4 * i)).take 4)

/-- Three words of a nonce. -/
def nonceWords (iv : Bytes (BitVec 8) 12) : List.Vector (BitVec 32) 3 :=
  List.Vector.ofFn fun i => load32Le ((iv.toList.drop (4 * i)).take 4)

/-- The context of a key, a nonce and a counter, `chacha_keysetup` and `chacha_ietf_ivsetup`. -/
def chachaIetfSetup (k : Bytes (BitVec 8) 32) (iv : Bytes (BitVec 8) 12) (counter : BitVec 32) : ChachaCtx :=
  ⟨[0x61707865#32, 0x3320646e#32, 0x79622d32#32, 0x6b206574#32] ++ (keyWords k).toList ++ [counter] ++
    (nonceWords iv).toList, by simp⟩

/-- `stream_ietf_ext_ref`: the key stream itself, the encryption of zeros. -/
def streamIetfExtRef (clen : ℕ) (n : Bytes (BitVec 8) 12) (k : Bytes (BitVec 8) 32) : List (BitVec 8) :=
  if clen = 0 then [] else (chacha20EncryptBytes (chachaIetfSetup k n 0) (List.replicate clen 0#8)).2

/-- `stream_ietf_ext_ref_xor_ic`: a message under the key stream, from a block on. -/
def streamIetfExtRefXorIc (m : List (BitVec 8)) (n : Bytes (BitVec 8) 12) (ic : BitVec 32) (k : Bytes (BitVec 8) 32) :
    List (BitVec 8) :=
  if m.length = 0 then [] else (chacha20EncryptBytes (chachaIetfSetup k n ic) m).2

/-! ### The key stream -/

/-- The octets of a block of the key stream. -/
def blockOctets (j : ChachaCtx) : List (BitVec 8) := (chachaBlock j).toList.flatMap store32Le

/-- The first `n` blocks of the key stream of a context. -/
def keystream (j : ChachaCtx) : ℕ → List (BitVec 8)
  | 0 => []
  | n + 1 => blockOctets j ++ keystream (advance j) n

theorem length_flatMap_store32Le (ws : List (BitVec 32)) : (ws.flatMap store32Le).length = 4 * ws.length := by
  induction ws with
  | nil => rfl
  | cons w ws ih =>
    rw [List.flatMap_cons, List.length_append, ih, length_store32Le, List.length_cons]
    omega

@[simp] theorem length_blockOctets (j : ChachaCtx) : (blockOctets j).length = 64 := by
  rw [blockOctets, length_flatMap_store32Le, List.Vector.toList_length]

@[simp] theorem length_keystream (j : ChachaCtx) (n : ℕ) : (keystream j n).length = 64 * n := by
  induction n generalizing j with
  | zero => rfl
  | succ n ih =>
    rw [keystream, List.length_append, ih, length_blockOctets]
    omega

/-- Combining word by word is combining octet by octet. -/
theorem xorWords_eq (ws : List (BitVec 32)) {m : List (BitVec 8)} (h : m.length = 4 * ws.length) :
    xorWords ws m = List.zipWith (· ^^^ ·) (ws.flatMap store32Le) m := by
  induction ws generalizing m with
  | nil => rfl
  | cons x xs ih =>
    rw [List.length_cons] at h
    have htake : (m.take 4).length = 4 := by rw [List.length_take]; omega
    have hword : store32Le (x ^^^ load32Le (m.take 4)) = List.zipWith (· ^^^ ·) (store32Le x) (m.take 4) := by
      have hxor := leWriteFrom_xor_leReadFrom x (p := m.take 4) (by rw [htake])
      rwa [htake] at hxor
    have happend : List.zipWith (· ^^^ ·) (store32Le x ++ xs.flatMap store32Le) (m.take 4 ++ m.drop 4) =
        List.zipWith (· ^^^ ·) (store32Le x) (m.take 4) ++
          List.zipWith (· ^^^ ·) (xs.flatMap store32Le) (m.drop 4) :=
      List.zipWith_append (by rw [length_store32Le, htake])
    rw [List.take_append_drop] at happend
    rw [xorWords, hword, ih (by rw [List.length_drop]; omega), List.flatMap_cons, happend]

/-- A whole block of the message is combined with a block of the key stream. -/
theorem xorWords_block (j : ChachaCtx) {m : List (BitVec 8)} (h : m.length = 64) :
    xorWords (chachaBlock j).toList m = List.zipWith (· ^^^ ·) (blockOctets j) m :=
  xorWords_eq _ (by rw [h, List.Vector.toList_length])

/-- So is a part of a block, by way of the cleared one. -/
theorem xorWords_tmp (j : ChachaCtx) {m : List (BitVec 8)} (h : m.length < 64) :
    (xorWords (chachaBlock j).toList (m ++ List.replicate (64 - m.length) 0#8)).take m.length =
      List.zipWith (· ^^^ ·) (blockOctets j) m := by
  rw [xorWords_block j (by rw [List.length_append, List.length_replicate]; omega), List.take_zipWith, List.take_left]
  refine List.ext_getElem ?_ fun i hi hi' => ?_
  · rw [List.length_zipWith, List.length_zipWith, List.length_take, length_blockOctets]
    omega
  · rw [List.getElem_zipWith, List.getElem_zipWith, List.getElem_take]

/-- The loop combines the message with the key stream, and goes on by as many blocks as it takes. -/
theorem encryptLoop_eq (j : ChachaCtx) {m : List (BitVec 8)} (h : m ≠ []) : encryptLoop j m =
    (advance^[(m.length + 63) / 64] j, List.zipWith (· ^^^ ·) (keystream j ((m.length + 63) / 64)) m) := by
  induction hk : m.length using Nat.strongRecOn generalizing j m with
  | ind k ih =>
    subst hk
    have hpos := List.length_pos_iff.mpr h
    rw [encryptLoop]
    by_cases hshort : m.length < 64
    · have hone : (m.length + 63) / 64 = 1 := by omega
      rw [if_pos hshort, hone, keystream, keystream, List.append_nil, ← xorWords_tmp j hshort]
      rfl
    · by_cases hlast : m.length ≤ 64
      · have hone : (m.length + 63) / 64 = 1 := by omega
        have hlen : m.length = 64 := by omega
        rw [if_neg hshort, if_pos hlast, hone, keystream, keystream, List.append_nil, List.take_of_length_le hlast,
          xorWords_block j hlen]
        rfl
      · have hdrop : (m.drop 64).length = m.length - 64 := List.length_drop
        have hne : m.drop 64 ≠ [] := List.ne_nil_of_length_pos (by omega)
        have hnext : (m.length + 63) / 64 = (m.length - 64 + 63) / 64 + 1 := by omega
        have htake : (m.take 64).length = 64 := by rw [List.length_take]; omega
        have happend : List.zipWith (· ^^^ ·) (blockOctets j ++ keystream (advance j) ((m.length - 64 + 63) / 64))
            (m.take 64 ++ m.drop 64) = List.zipWith (· ^^^ ·) (blockOctets j) (m.take 64) ++
              List.zipWith (· ^^^ ·) (keystream (advance j) ((m.length - 64 + 63) / 64)) (m.drop 64) :=
          List.zipWith_append (by rw [length_blockOctets, htake])
        rw [List.take_append_drop] at happend
        rw [if_neg hshort, if_neg hlast, ih _ (by omega) (advance j) hne hdrop, hnext, keystream, happend,
          xorWords_block j htake]
        rfl

/-- **Encryption combines the message with the key stream, octet by octet.** -/
theorem chacha20EncryptBytes_eq (ctx : ChachaCtx) (m : List (BitVec 8)) : chacha20EncryptBytes ctx m =
    (advance^[(m.length + 63) / 64] ctx, List.zipWith (· ^^^ ·) (keystream ctx ((m.length + 63) / 64)) m) := by
  by_cases h : m = []
  · subst h
    rfl
  · rw [chacha20EncryptBytes, if_neg (mt List.eq_nil_of_length_eq_zero h), encryptLoop_eq ctx h]

theorem length_chacha20EncryptBytes (ctx : ChachaCtx) (m : List (BitVec 8)) :
    (chacha20EncryptBytes ctx m).2.length = m.length := by
  rw [chacha20EncryptBytes_eq, List.length_zipWith, length_keystream]
  omega

/-- **Encrypting twice gives the message again.** -/
theorem chacha20EncryptBytes_involutive (ctx : ChachaCtx) (m : List (BitVec 8)) :
    (chacha20EncryptBytes ctx (chacha20EncryptBytes ctx m).2).2 = m := by
  have hlen := length_chacha20EncryptBytes ctx m
  rw [chacha20EncryptBytes_eq, hlen, chacha20EncryptBytes_eq]
  refine List.ext_getElem ?_ fun i hi hi' => ?_
  · rw [List.length_zipWith, List.length_zipWith, length_keystream]
    omega
  · rw [List.getElem_zipWith, List.getElem_zipWith, ← BitVec.xor_assoc, BitVec.xor_self, BitVec.zero_xor]

/-! ### The counter -/

theorem getElem_keystream (j : ChachaCtx) {n i : ℕ} (h : i < 64 * n) :
    (keystream j n)[i]? = (blockOctets (advance^[i / 64] j))[i % 64]? := by
  induction n generalizing i j with
  | zero => omega
  | succ n ih =>
    rw [keystream]
    by_cases hi : i < 64
    · rw [List.getElem?_append_left (by rwa [length_blockOctets]), Nat.div_eq_of_lt hi, Nat.mod_eq_of_lt hi]
      rfl
    · have hdiv : i / 64 = (i - 64) / 64 + 1 := by omega
      have hmod : i % 64 = (i - 64) % 64 := by omega
      rw [List.getElem?_append_right (by rw [length_blockOctets]; omega), length_blockOctets,
        ih (advance j) (by omega), hdiv, hmod]
      rfl

section

variable (k : Bytes (BitVec 8) 32) (n : Bytes (BitVec 8) 12)

theorem get_chachaIetfSetup (c : BitVec 32) : (chachaIetfSetup k n c).get 12 = c := rfl

theorem set_chachaIetfSetup (c d : BitVec 32) : (chachaIetfSetup k n c).set 12 d = chachaIetfSetup k n d := rfl

theorem advance_chachaIetfSetup {c : BitVec 32} (h : c + 1 ≠ 0) :
    advance (chachaIetfSetup k n c) = chachaIetfSetup k n (c + 1) := by
  rw [advance, get_chachaIetfSetup, set_chachaIetfSetup, get_chachaIetfSetup, if_neg h]

/-- Until the counter comes to its end only the counter changes. -/
theorem iterate_advance {c : BitVec 32} {i : ℕ} (h : c.toNat + i < 2 ^ 32) :
    advance^[i] (chachaIetfSetup k n c) = chachaIetfSetup k n (BitVec.ofNat 32 (c.toNat + i)) := by
  induction i with
  | zero =>
    rw [Nat.add_zero, BitVec.ofNat_toNat, BitVec.setWidth_eq]
    rfl
  | succ i ih =>
    have hsucc : BitVec.ofNat 32 (c.toNat + i) + 1 = BitVec.ofNat 32 (c.toNat + (i + 1)) :=
      (BitVec.ofNat_add (c.toNat + i) 1).symm
    have hne : BitVec.ofNat 32 (c.toNat + (i + 1)) ≠ 0 := by
      intro hzero
      have hnat := congrArg BitVec.toNat hzero
      rw [BitVec.toNat_ofNat, Nat.mod_eq_of_lt h] at hnat
      simp at hnat
    rw [Function.iterate_succ_apply', ih (by omega), advance_chachaIetfSetup k n (hsucc ▸ hne), hsucc]

/-- The octet of the key stream at a place, counted from block 0. -/
def keystreamOctet (pos : ℕ) : BitVec 8 :=
  (blockOctets (chachaIetfSetup k n (BitVec.ofNat 32 (pos / 64)))).getD (pos % 64) 0

/-- `crypto_stream_chacha20_ietf_xor_ic`: there is no result when the counter would come to its end, the library
then ends the program (`sodium_misuse`). -/
def cryptoStreamChacha20IetfXorIc (m : List (BitVec 8)) (ic : BitVec 32) : Option (List (BitVec 8)) :=
  if ic.setWidth 64 > (64#64 * (1#64 <<< 32)) / 64#64 - (BitVec.ofNat 64 m.length + 63#64) / 64#64 then none
  else some (streamIetfExtRefXorIc m n ic k)

/-- The octets of a message under the key stream from a block on, when the counter does not come to its end. -/
theorem streamIetfExtRefXorIc_eq {m : List (BitVec 8)} {ic : BitVec 32} (h : ic.toNat + (m.length + 63) / 64 ≤ 2 ^ 32) :
    streamIetfExtRefXorIc m n ic k = m.mapIdx fun i b => keystreamOctet k n (64 * ic.toNat + i) ^^^ b := by
  have hstream : streamIetfExtRefXorIc m n ic k =
      List.zipWith (· ^^^ ·) (keystream (chachaIetfSetup k n ic) ((m.length + 63) / 64)) m := by
    rw [streamIetfExtRefXorIc, chacha20EncryptBytes_eq]
    split
    · next hempty =>
      rw [List.eq_nil_of_length_eq_zero hempty, List.zipWith_nil_right]
    · rfl
  rw [hstream]
  refine List.ext_getElem? fun i => ?_
  rw [List.getElem?_zipWith, List.getElem?_mapIdx]
  by_cases hi : i < m.length
  · have hpos : (64 * ic.toNat + i) / 64 = ic.toNat + i / 64 := by omega
    have hmod : (64 * ic.toNat + i) % 64 = i % 64 := by omega
    have hin : i % 64 < (blockOctets (chachaIetfSetup k n (BitVec.ofNat 32 (ic.toNat + i / 64)))).length := by
      rw [length_blockOctets]
      omega
    rw [getElem_keystream _ (by omega), iterate_advance k n (by omega), List.getElem?_eq_getElem hin,
      List.getElem?_eq_getElem hi, Option.map_some, keystreamOctet, hpos, hmod, List.getD_eq_getElem?_getD,
      List.getElem?_eq_getElem hin, Option.getD_some]
  · rw [List.getElem?_eq_none (Nat.le_of_not_lt hi)]
    split
    · next hnone => cases hnone
    · rfl

/-- **The IETF stream is counter mode.** A call is refused when the counter would come to its end; otherwise each
octet of the message is combined with the octet of the key stream at its place, and the nonce of every block is the
one given. -/
theorem cryptoStreamChacha20IetfXorIc_eq {m : List (BitVec 8)} (hlen : m.length ≤ 2 ^ 38) (ic : BitVec 32) :
    cryptoStreamChacha20IetfXorIc k n m ic = if ic.toNat + (m.length + 63) / 64 ≤ 2 ^ 32 then
      some (m.mapIdx fun i b => keystreamOctet k n (64 * ic.toNat + i) ^^^ b) else none := by
  have hguard : ic.setWidth 64 > (64#64 * (1#64 <<< 32)) / 64#64 - (BitVec.ofNat 64 m.length + 63#64) / 64#64 ↔
      ¬ ic.toNat + (m.length + 63) / 64 ≤ 2 ^ 32 := by
    have hone : ((64#64 * (1#64 <<< 32)) / 64#64).toNat = 2 ^ 32 := by decide
    have hic : (ic.setWidth 64).toNat = ic.toNat := by
      rw [BitVec.toNat_setWidth]
      exact Nat.mod_eq_of_lt (by have := ic.isLt; omega)
    have hblocks : ((BitVec.ofNat 64 m.length + 63#64) / 64#64).toNat = (m.length + 63) / 64 := by
      rw [BitVec.toNat_udiv, BitVec.toNat_add, BitVec.toNat_ofNat]
      simp
      omega
    rw [gt_iff_lt, BitVec.lt_def, hic, BitVec.toNat_sub, hone, hblocks]
    omega
  rw [cryptoStreamChacha20IetfXorIc]
  by_cases h : ic.toNat + (m.length + 63) / 64 ≤ 2 ^ 32
  · rw [if_neg (mt hguard.mp (not_not.mpr h)), if_pos h, streamIetfExtRefXorIc_eq k n h]
  · rw [if_pos (hguard.mpr h), if_neg h]

end

/-! ### Every block has its own input -/

theorem load32Le_injective {p q : List (BitVec 8)} (hp : p.length = 4) (hq : q.length = 4)
    (h : load32Le p = load32Le q) : p = q := by
  have hnat := congrArg BitVec.toNat h
  rw [load32Le, load32Le, toNat_leReadFrom p (by omega), toNat_leReadFrom q (by omega), Nat.mul_zero, Nat.pow_zero,
    Nat.one_mul, Nat.one_mul] at hnat
  exact leNat_inj (hp.trans hq.symm) hnat

/-- A string is determined by its words. -/
theorem eq_of_load32Le {w : ℕ} {p q : List (BitVec 8)} (hp : p.length = 4 * w) (hq : q.length = 4 * w)
    (h : ∀ i < w, load32Le ((p.drop (4 * i)).take 4) = load32Le ((q.drop (4 * i)).take 4)) : p = q := by
  induction w generalizing p q with
  | zero => rw [List.eq_nil_of_length_eq_zero hp, List.eq_nil_of_length_eq_zero hq]
  | succ w ih =>
    have hfirst := h 0 (Nat.succ_pos w)
    rw [Nat.mul_zero, List.drop_zero, List.drop_zero] at hfirst
    have htake : p.take 4 = q.take 4 :=
      load32Le_injective (by rw [List.length_take]; omega) (by rw [List.length_take]; omega) hfirst
    have hdrop : p.drop 4 = q.drop 4 := by
      refine ih (by rw [List.length_drop]; omega) (by rw [List.length_drop]; omega) fun i hi => ?_
      have hnext := h (i + 1) (Nat.succ_lt_succ hi)
      rw [List.drop_drop, List.drop_drop, Nat.add_comm 4]
      exact hnext
    rw [← List.take_append_drop 4 p, htake, hdrop, List.take_append_drop]

/-- **The key, the nonce and the counter can be told from the input of a block**: under one key, no two blocks of
whatever messages have the same input unless they have the same nonce and the same number. -/
theorem chachaIetfSetup_injective {k k' : Bytes (BitVec 8) 32} {n n' : Bytes (BitVec 8) 12} {c c' : BitVec 32}
    (h : chachaIetfSetup k n c = chachaIetfSetup k' n' c') : k = k' ∧ n = n' ∧ c = c' := by
  have hlist := congrArg List.Vector.toList h
  simp only [chachaIetfSetup, List.Vector.toList_mk] at hlist
  obtain ⟨hfront, hnonce⟩ := List.append_inj hlist (by simp)
  obtain ⟨hfront, hcounter⟩ := List.append_inj hfront (by simp)
  obtain ⟨-, hkey⟩ := List.append_inj hfront rfl
  refine ⟨?_, ?_, List.singleton_inj.mp hcounter⟩
  · refine List.Vector.eq _ _ (eq_of_load32Le (w := 8) k.toList_length k'.toList_length fun i hi => ?_)
    have hword := congrArg (fun v => List.Vector.get v ⟨i, hi⟩) (List.Vector.eq _ _ hkey)
    simpa [keyWords] using hword
  · refine List.Vector.eq _ _ (eq_of_load32Le (w := 3) n.toList_length n'.toList_length fun i hi => ?_)
    have hword := congrArg (fun v => List.Vector.get v ⟨i, hi⟩) (List.Vector.eq _ _ hnonce)
    simpa [nonceWords] using hword

end VpnTunnel
