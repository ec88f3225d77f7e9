import VpnTunnel.Libsodium.Aead
import VpnTunnel.NonceUse

/-!
# Blocks of key stream

A packet is encrypted by combining it with blocks of key stream, and its tag has a key taken from one more block. Two
packets, or a packet and a tag, that share a block give away what they are combined with. This module follows the
cipher into its blocks, over whole runs of the event loop, for the packets that are encrypted. (A datagram that arrives
has block 0 of its nonce computed again, as often as it arrives, to check its tag.)

## The model

Encryption is written down a second time, with a note of the sixteen words of each block at the place where the block
is computed (`chachaBlockNoted`). It has the result of the model of `Libsodium.Aead`, and what it notes are the blocks
of the encryption (`aeadBlocks`).

## The argument

A block is a function of sixteen words, of which the code changes the counter from one block to the next
(`advance`). The key, the nonce and the counter can be told from the words (`chachaIetfSetup_injective`), and a packet
is too short for the counter to run into the nonce. So two blocks with the same words are the same block of one
encryption, or blocks of two encryptions with one key and nonce, of which there are none as long as there is room
in the counter of packets.

## What is proved

* `run_encryptDetachedNoted` — encryption with notes is encryption, and it notes block 0 and then the blocks from 1 on.
* `keystream_unique` — in every run whose sessions have new keys, and whose steps find room in the counter, no two
  blocks computed to encrypt packets have the same words.
-/

namespace VpnTunnel

open Octets OneTime

/-! ### Encryption with notes -/

/-- Compute a block, and note its words. -/
def chachaBlockNoted (j : ChachaCtx) : StateM (List ChachaCtx) ChachaCtx := do
  modify (· ++ [j])
  pure (chachaBlock j)

/-- The loop of `chacha20_encrypt_bytes`, with notes. -/
def encryptLoopNoted (j : ChachaCtx) (m : List (BitVec 8)) :
    StateM (List ChachaCtx) (ChachaCtx × List (BitVec 8)) :=
  if m.length < 64 then do
    let tmp := m ++ List.replicate (64 - m.length) 0#8
    let x ← chachaBlockNoted j
    pure (advance j, (xorWords x.toList tmp).take m.length)
  else do
    let x ← chachaBlockNoted j
    let c := xorWords x.toList (m.take 64)
    if m.length ≤ 64 then pure (advance j, c)
    else do
      let rest ← encryptLoopNoted (advance j) (m.drop 64)
      pure (rest.1, c ++ rest.2)
termination_by m.length
decreasing_by rw [List.length_drop]; omega

/-- `chacha20_encrypt_bytes`, with notes. -/
def chacha20EncryptBytesNoted (ctx : ChachaCtx) (m : List (BitVec 8)) :
    StateM (List ChachaCtx) (ChachaCtx × List (BitVec 8)) :=
  if m.length = 0 then pure (ctx, []) else encryptLoopNoted ctx m

/-- `stream_ietf_ext_ref`, with notes. -/
def streamIetfExtRefNoted (clen : ℕ) (n : Bytes (BitVec 8) 12) (k : Bytes (BitVec 8) 32) :
    StateM (List ChachaCtx) (List (BitVec 8)) :=
  if clen = 0 then pure []
  else do
    let out ← chacha20EncryptBytesNoted (chachaIetfSetup k n 0) (List.replicate clen 0#8)
    pure out.2

/-- `stream_ietf_ext_ref_xor_ic`, with notes. -/
def streamIetfExtRefXorIcNoted (m : List (BitVec 8)) (n : Bytes (BitVec 8) 12) (ic : BitVec 32)
    (k : Bytes (BitVec 8) 32) : StateM (List ChachaCtx) (List (BitVec 8)) :=
  if m.length = 0 then pure []
  else do
    let out ← chacha20EncryptBytesNoted (chachaIetfSetup k n ic) m
    pure out.2

/-- `crypto_aead_chacha20poly1305_ietf_encrypt_detached`, with notes: the ciphertext and the tag. -/
def encryptDetachedNoted (key : Bytes (BitVec 8) 32) (nonce : Bytes (BitVec 8) 12) (ad m : List (BitVec 8)) :
    StateM (List ChachaCtx) (List (BitVec 8) × List (BitVec 8)) := do
  let block0 ← streamIetfExtRefNoted 64 nonce key
  let c ← streamIetfExtRefXorIcNoted m nonce 1#32 key
  pure (c, cryptoOnetimeauthPoly1305 (List.Vector.ofFn fun i : Fin 32 => block0.getD i 0) (macParts ad c))

/-- The words of the blocks that are computed to encrypt a message. -/
def aeadBlocks (key : Bytes (BitVec 8) 32) (nonce : Bytes (BitVec 8) 12) (ad m : List (BitVec 8)) : List ChachaCtx :=
  ((encryptDetachedNoted key nonce ad m).run []).2

/-- The words of `n` blocks, one after the other. -/
def contexts (j : ChachaCtx) (n : ℕ) : List ChachaCtx := (List.range n).map fun i => advance^[i] j

theorem contexts_succ (j : ChachaCtx) (n : ℕ) : contexts j (n + 1) = j :: contexts (advance j) n := by
  rw [contexts, List.range_succ_eq_map, List.map_cons, List.map_map]
  rfl

/-- The loop notes each block it goes through. -/
theorem run_encryptLoopNoted (j : ChachaCtx) {m : List (BitVec 8)} (h : m ≠ []) (noted : List ChachaCtx) :
    (encryptLoopNoted j m).run noted = (encryptLoop j m, noted ++ contexts j ((m.length + 63) / 64)) := by
  induction hk : m.length using Nat.strongRecOn generalizing j m noted with
  | ind k ih =>
    subst hk
    have hpos := List.length_pos_iff.mpr h
    rw [encryptLoopNoted, encryptLoop]
    by_cases hshort : m.length < 64
    · have hone : (m.length + 63) / 64 = 1 := by omega
      rw [if_pos hshort, if_pos hshort, hone]
      rfl
    · rw [if_neg hshort, if_neg hshort]
      by_cases hlast : m.length ≤ 64
      · have hone : (m.length + 63) / 64 = 1 := by omega
        simp only [hlast, if_true, hone]
        rfl
      · have hdrop : (m.drop 64).length = m.length - 64 := List.length_drop
        have hne : m.drop 64 ≠ [] := List.ne_nil_of_length_pos (by omega)
        have hnext : (m.length + 63) / 64 = (m.length - 64 + 63) / 64 + 1 := by omega
        have hrest := ih _ (by omega) (advance j) hne (noted ++ [j]) hdrop
        simp only [hlast, if_false, hnext, contexts_succ]
        have happend : noted ++ j :: contexts (advance j) ((m.length - 64 + 63) / 64) =
            noted ++ [j] ++ contexts (advance j) ((m.length - 64 + 63) / 64) := List.append_cons _ _ _
        rw [happend]
        -- the rest of the loop is run on what is noted so far
        exact congrArg (fun out : (ChachaCtx × List (BitVec 8)) × List ChachaCtx =>
          ((out.1.1, xorWords (chachaBlock j).toList (m.take 64) ++ out.1.2), out.2)) hrest

theorem run_chacha20EncryptBytesNoted (ctx : ChachaCtx) (m : List (BitVec 8)) (noted : List ChachaCtx) :
    (chacha20EncryptBytesNoted ctx m).run noted =
      (chacha20EncryptBytes ctx m, noted ++ contexts ctx ((m.length + 63) / 64)) := by
  by_cases h : m = []
  · subst h
    exact congrArg (Prod.mk _) (List.append_nil noted).symm
  · have hlen : m.length ≠ 0 := mt List.eq_nil_of_length_eq_zero h
    rw [chacha20EncryptBytesNoted, if_neg hlen, chacha20EncryptBytes, if_neg hlen, run_encryptLoopNoted ctx h]

theorem run_streamIetfExtRefXorIcNoted (m : List (BitVec 8)) (n : Bytes (BitVec 8) 12) (ic : BitVec 32)
    (k : Bytes (BitVec 8) 32) (noted : List ChachaCtx) : (streamIetfExtRefXorIcNoted m n ic k).run noted =
      (streamIetfExtRefXorIc m n ic k, noted ++ contexts (chachaIetfSetup k n ic) ((m.length + 63) / 64)) := by
  rw [streamIetfExtRefXorIcNoted, streamIetfExtRefXorIc]
  by_cases h : m.length = 0
  · rw [if_pos h, if_pos h, h]
    exact congrArg (Prod.mk _) (List.append_nil noted).symm
  · rw [if_neg h, if_neg h]
    exact congrArg (fun out : (ChachaCtx × List (BitVec 8)) × List ChachaCtx => (out.1.2, out.2))
      (run_chacha20EncryptBytesNoted _ m noted)

/-- The key stream itself is the encryption of zeros from block 0 on. -/
theorem run_streamIetfExtRefNoted (clen : ℕ) (n : Bytes (BitVec 8) 12) (k : Bytes (BitVec 8) 32)
    (noted : List ChachaCtx) : (streamIetfExtRefNoted clen n k).run noted =
      (streamIetfExtRef clen n k, noted ++ contexts (chachaIetfSetup k n 0) ((clen + 63) / 64)) := by
  have hzeros := run_streamIetfExtRefXorIcNoted (List.replicate clen 0#8) n 0 k noted
  rw [streamIetfExtRefXorIcNoted, streamIetfExtRefXorIc, List.length_replicate] at hzeros
  exact hzeros

/-- The key of the tag as it is read from the first block. -/
theorem onetimeKey_eq_ofFn (key : Bytes (BitVec 8) 32) (nonce : Bytes (BitVec 8) 12) :
    (List.Vector.ofFn fun i : Fin 32 => (streamIetfExtRef 64 nonce key).getD i 0) = onetimeKey key nonce := by
  have hslice : (onetimeKey key nonce).toList = (streamIetfExtRef 64 nonce key).take 32 := rfl
  refine List.Vector.eq _ _ ?_
  rw [hslice, List.Vector.toList_ofFn]
  refine List.ext_getElem (by rw [List.length_ofFn, List.length_take, length_streamIetfExtRef]; rfl) fun i hi hi' => ?_
  have hlen : i < (streamIetfExtRef 64 nonce key).length := (List.length_take_le' 32 _).trans_lt' hi'
  rw [List.getElem_ofFn, List.getElem_take, List.getD_eq_getElem?_getD, List.getElem?_eq_getElem hlen, Option.getD_some]

/-- **Encryption with notes is encryption**: it has the ciphertext and the tag of the model, and notes block 0, for
the key of the tag, and then the blocks from 1 on, for the message. -/
theorem run_encryptDetachedNoted {n : ℕ} (key : Bytes (BitVec 8) 32) (nonce : Bytes (BitVec 8) 12)
    (ad : List (BitVec 8)) (m : Bytes (BitVec 8) n) : (encryptDetachedNoted key nonce ad m.toList).run [] =
      (((cryptoAeadEncryptDetached key nonce ad m).1.toList, (cryptoAeadEncryptDetached key nonce ad m).2.toList),
        chachaIetfSetup key nonce 0 :: contexts (chachaIetfSetup key nonce 1) ((n + 63) / 64)) := by
  have hrun : (encryptDetachedNoted key nonce ad m.toList).run [] =
      (let block0 := (streamIetfExtRefNoted 64 nonce key).run []
       let c := (streamIetfExtRefXorIcNoted m.toList nonce 1#32 key).run block0.2
       let tag := cryptoOnetimeauthPoly1305 (List.Vector.ofFn fun i : Fin 32 => block0.1.getD i 0) (macParts ad c.1)
       ((c.1, tag), c.2)) :=
    rfl
  rw [hrun, run_streamIetfExtRefNoted]
  dsimp only
  rw [run_streamIetfExtRefXorIcNoted, onetimeKey_eq_ofFn, m.toList_length]
  rfl

section

variable {key : Bytes (BitVec 8) 32} {nonce : Bytes (BitVec 8) 12} {ad m : List (BitVec 8)}

/-- The blocks of a packet differ in the counter only. -/
theorem aeadBlocks_eq (hlen : m.length ≤ 2048) : aeadBlocks key nonce ad m =
    (List.range ((m.length + 63) / 64 + 1)).map fun i => chachaIetfSetup key nonce (BitVec.ofNat 32 i) := by
  have hnoted := congrArg Prod.snd (run_encryptDetachedNoted key nonce ad (ofList m))
  rw [toList_ofList] at hnoted
  rw [aeadBlocks, hnoted, List.range_succ_eq_map, List.map_cons, List.map_map]
  refine congrArg (List.cons _) (List.map_congr_left fun i hi => ?_)
  have hi := List.mem_range.mp hi
  have hone : (1 : BitVec 32).toNat = 1 := rfl
  rw [iterate_advance key nonce (by rw [hone]; omega), hone, Function.comp_apply, Nat.add_comm]

theorem nodup_aeadBlocks (hlen : m.length ≤ 2048) : (aeadBlocks key nonce ad m).Nodup := by
  rw [aeadBlocks_eq hlen]
  refine List.Nodup.map_on (fun i hi j hj heq => ?_) List.nodup_range
  have hi := List.mem_range.mp hi
  have hj := List.mem_range.mp hj
  have hnat := congrArg BitVec.toNat (chachaIetfSetup_injective heq).2.2
  rwa [BitVec.toNat_ofNat, BitVec.toNat_ofNat, Nat.mod_eq_of_lt (by omega), Nat.mod_eq_of_lt (by omega)] at hnat

/-- The key and the nonce can be told from any of them. -/
theorem eq_of_mem_aeadBlocks {key' : Bytes (BitVec 8) 32} {nonce' : Bytes (BitVec 8) 12} {ad' m' : List (BitVec 8)}
    {x : ChachaCtx} (hlen : m.length ≤ 2048) (hlen' : m'.length ≤ 2048) (hx : x ∈ aeadBlocks key nonce ad m)
    (hx' : x ∈ aeadBlocks key' nonce' ad' m') : (key, nonce) = (key', nonce') := by
  rw [aeadBlocks_eq hlen] at hx
  rw [aeadBlocks_eq hlen'] at hx'
  obtain ⟨i, -, rfl⟩ := List.mem_map.mp hx
  obtain ⟨j, -, heq⟩ := List.mem_map.mp hx'
  obtain ⟨hkey, hnonce, -⟩ := chachaIetfSetup_injective heq
  rw [hkey, hnonce]

end

/-! ### Runs -/

/-- The packets encrypted in a trace, with their keys and nonces. -/
def encryptedPackets (trace : List (Effect (BitVec 8))) :
    List ((Bytes (BitVec 8) 32 × Bytes (BitVec 8) 12) × List (BitVec 8)) :=
  trace.filterMap fun
    | .encrypt key nonce plaintext => some ((key, nonce), plaintext)
    | _ => none

/-- The words of all blocks that are computed to encrypt the packets of a trace, by `vpn_crypto_aead_encrypt` without
associated data. -/
def keystreamBlocks (trace : List (Effect (BitVec 8))) : List ChachaCtx :=
  (encryptedPackets trace).flatMap fun e => aeadBlocks e.1.1 e.1.2 [] e.2

section

variable {S : Sodium (BitVec 8)} {trace effects : List (Effect (BitVec 8))} {d d' : Daemon (BitVec 8)}
  {ev : Event (BitVec 8)}

theorem map_fst_encryptedPackets (trace : List (Effect (BitVec 8))) :
    (encryptedPackets trace).map Prod.fst = encryptions trace := by
  rw [encryptedPackets, List.map_filterMap, encryptions]
  refine List.filterMap_congr fun effect _ => ?_
  cases effect <;> rfl

/-- A packet is cut to the buffer before it is encrypted. -/
theorem StepCase.length_encrypted (h : StepCase S d ev d' effects) :
    ∀ e ∈ encryptedPackets effects, e.2.length ≤ 2048 := by
  cases h with
  | idle => nofun
  | data h =>
    rw [show encryptedPackets (deliver _ _ _ _ _ _) = [] from filterMap_deliver fun _ _ _ _ => rfl]
    nofun
  | initiation _ _ => nofun
  | unanswered _ _ => nofun
  | @outbound packet i h =>
    intro e he
    have hone : encryptedPackets (.encrypt (d.table.peers.get i).currentSession.sendKey
        (vpnCryptoFormatNonce (d.table.peers.get i).currentSession.sendingCounter) (packet.take 2048) ::
          sendSealed S (d.table.peers.get i) (packet.take 2048)) = [(_, packet.take 2048)] :=
      congrArg (List.cons _) (filterMap_sendSealed S (fun _ _ => rfl) _ _)
    rw [hone] at he
    rw [List.mem_singleton.mp he]
    exact List.length_take_le _ _

theorem length_encrypted_run (d : Daemon (BitVec 8)) (events : List (Event (BitVec 8))) :
    ∀ e ∈ encryptedPackets (runLoop S d events).2, e.2.length ≤ 2048 := by
  refine Machine.run_invariant_of_step (step S) (I := fun trace _ => ∀ e ∈ encryptedPackets trace, e.2.length ≤ 2048)
    (fun trace d ev hinv e he => ?_) events nofun
  rw [encryptedPackets, List.filterMap_append] at he
  exact (List.mem_append.mp he).elim (hinv e) ((step_cases S d ev).length_encrypted e)

/-- Blocks are computed once when keys and nonces are used once. -/
theorem nodup_keystreamBlocks (hlen : ∀ e ∈ encryptedPackets trace, e.2.length ≤ 2048)
    (honce : (encryptions trace).Nodup) : (keystreamBlocks trace).Nodup := by
  refine List.nodup_flatMap.mpr ⟨fun e he => nodup_aeadBlocks (hlen e he), ?_⟩
  rw [← map_fst_encryptedPackets, List.Nodup, List.pairwise_map] at honce
  refine honce.imp_of_mem fun {e e'} he he' hne x hx hx' => ?_
  exact hne (eq_of_mem_aeadBlocks (hlen e he) (hlen e' he') hx hx')

end

/-- **No block of key stream is used for two packets.** Take a run of the event loop that starts without sessions, in
which every session installed has a new send key, and whose steps all find room in the counter. Of the blocks that are
computed to encrypt its packets no two have the same words: neither in two packets, nor in one, nor in a packet and the
key of a tag. -/
theorem keystream_unique (S : Sodium (BitVec 8)) (d : Daemon (BitVec 8)) (events : List (Event (BitVec 8)))
    (hstart : d.table.NoSessions) (hkeys : (sealingKeys (runLoop S d events).2).Nodup)
    (hroom : Machine.Along (step S) (fun _ d ev => CounterRoom d ev) [] d events) :
    (keystreamBlocks (runLoop S d events).2).Nodup :=
  nodup_keystreamBlocks (length_encrypted_run d events) (nonceInv_run hstart hkeys hroom).once

/-- So it is in a run of the toy daemon with three packets, of two blocks each. -/
theorem keystream_unique_toy : (keystreamBlocks (runLoop toySodium toyDaemon toyOutbound).2).length = 6 ∧
    (keystreamBlocks (runLoop toySodium toyDaemon toyOutbound).2).Nodup := by
  have hrun : (sealingKeys (runLoop toySodium toyDaemon toyOutbound).2).Nodup ∧
      Machine.Along (step toySodium) (fun _ d ev => CounterRoom d ev) [] toyDaemon toyOutbound := by
    decide +kernel
  refine ⟨?_, keystream_unique toySodium toyDaemon toyOutbound noSessions_toyDaemon hrun.1 hrun.2⟩
  rw [keystreamBlocks, List.length_flatMap]
  decide +kernel

end VpnTunnel
