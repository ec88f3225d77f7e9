import VpnTunnel.ToySodium

/-!
# An undisturbed handshake

Two hosts run the four functions of `src/handshake.c` against each other, and every datagram arrives
as it was sent. This module proves that all four succeed and that the hosts then agree: on the
transcript and the chaining key after the first message, on the two transport keys, crosswise, and on
the two session indices.

## The argument

The two sides compute the same key schedule, because X25519 commutes and because each side mixes in
what it sent where the other mixes in what it received. What was sealed under a key of the schedule
then opens under it. Nothing is asked of the hash.

## What is proved

* `InitiationOpens.initiationMsg` — an honest initiation opens, to the initiator's static key and the time.
* `handshake_completes` — the whole exchange.
-/

namespace VpnTunnel

open Octets

variable {β : Type} [Octet β] {S : Sodium β}

/-- The seconds are read as they were written. -/
theorem timestampSec_timestampBytes (tvSec tvNsec : BitVec 64) :
    timestampSec (timestampBytes tvSec tvNsec : Bytes β 12) = tvSec := by
  unfold timestampSec timestampBytes
  rw [slice_join_left, le64Read_le64Write]

/-- **An honest initiation opens.** -/
theorem InitiationOpens.initiationMsg (hS : S.Correct) {sr Sr Si Ei z₁ z₂ : Bytes β 32} {idx : BitVec 32}
    {timestamp : Bytes β 12} (h₁ : S.scalarmult sr Ei = some z₁) (h₂ : S.scalarmult sr Si = some z₂) :
    InitiationOpens S sr Sr (initiationMsg S Si Sr idx Ei timestamp z₁ z₂) z₁ Si z₂ timestamp where
  dh₁ := h₁
  static := openField_sealField hS.decrypt_encrypt
  dh₂ := h₂
  timestamp := openField_sealField hS.decrypt_encrypt

/-- The stored time lets a reading of the initiator's clock pass: it is 0, or before it in whole seconds. -/
def InTime (last tvSec : BitVec 64) : Prop := last = 0 ∨ last.toInt < tvSec.toInt

instance (last tvSec : BitVec 64) : Decidable (InTime last tvSec) := inferInstanceAs (Decidable (_ ∨ _))

/-- A time that was sent is stale unless it is past the stored one. The nanoseconds do not matter. -/
theorem not_stale_iff {last tvSec tvNsec : BitVec 64} :
    ¬ Stale last (timestampBytes tvSec tvNsec : Bytes β 12) ↔ InTime last tvSec := by
  rw [Stale, timestampSec_timestampBytes, BitVec.sle_iff_toInt_le, not_and_or, not_not, Int.not_le, InTime]

section

variable [DecidableEq β] {t : PeerTable β} {i : Fin t.peers.length} {si sr ei : Bytes β 32}

/-- The responder consumes an honest initiation and has the initiator's transcript and chaining key. -/
theorem handshakeConsumeInitiation_honest (hS : S.Correct) {idx : BitVec 32} {tvSec tvNsec : BitVec 64}
    {z₁ z₂ : Bytes β 32}
    (hfind : peerFindByPubkey t (S.scalarmultBase si) = some i)
    (hfresh : (t.peers.get i).lastHandshakeTime = 0 ∨ (t.peers.get i).lastHandshakeTime.toInt < tvSec.toInt)
    (h₁ : S.scalarmult ei (S.scalarmultBase sr) = some z₁) (h₂ : S.scalarmult si (S.scalarmultBase sr) = some z₂) :
    ∀ msg, msg = initiationMsg S (S.scalarmultBase si) (S.scalarmultBase sr) idx (S.scalarmultBase ei)
        (timestampBytes tvSec tvNsec) z₁ z₂ →
      handshakeConsumeInitiation S msg.wire sr (S.scalarmultBase sr) t =
        .ok ⟨i, msg, (initiationKeys₂ S msg.unencryptedEphemeral z₁ z₂).1,
          initiationHash₂ S (S.scalarmultBase sr) msg.unencryptedEphemeral msg.encryptedStatic msg.encryptedTimestamp,
          timestampBytes tvSec tvNsec⟩ := by
  intro msg hmsg
  rw [hS.dh_comm] at h₁ h₂
  refine handshakeConsumeInitiation_eq_ok.mpr ⟨packetParseHandshakeInit_wire msg, z₁, _, z₂, ?_, hfind,
    not_stale_iff.mpr hfresh, rfl, rfl⟩
  rw [hmsg]
  exact .initiationMsg hS h₁ h₂

end

/-- The initiator consumes the response to its initiation and has the responder's keys. -/
theorem handshakeConsumeResponse_honest (hS : S.Correct) (st : HandshakeInitState β) (myIdx : BitVec 32)
    (theirStatic : Bytes β 32) {si er z₃ z₄ : Bytes β 32}
    (h₃ : S.scalarmult st.ephemeralPrivate (S.scalarmultBase er) = some z₃)
    (h₄ : S.scalarmult si (S.scalarmultBase er) = some z₄) :
    handshakeConsumeResponse S
        (responseMsg S theirStatic myIdx st.localIndex st.chainingKey st.hash (S.scalarmultBase er) z₃ z₄).wire si st =
      .ok ⟨myIdx, (transportKeys S st.chainingKey (S.scalarmultBase er) z₃ z₄).2,
        (transportKeys S st.chainingKey (S.scalarmultBase er) z₃ z₄).1⟩ :=
  handshakeConsumeResponse_eq_ok.mpr ⟨_, packetParseHandshakeResp_wire _, rfl, z₃, z₄, h₃, h₄,
    openField_sealField hS.decrypt_encrypt, rfl⟩

/-- **An undisturbed handshake completes, and the two hosts agree.** The initiator has private keys `si`
and `ei`, the responder `sr` and `er`. The initiator is registered with the responder as peer `i`,
whose handshake time is 0 or before the initiator's clock, and no exchange fails. -/
theorem handshake_completes [DecidableEq β] (S : Sodium β) (hS : S.Correct) (t : PeerTable β) (i : Fin t.peers.length)
    (si sr ei er : Bytes β 32) (idxI idxR : BitVec 32) (tvSec tvNsec : BitVec 64) (maxLenI maxLenR : ℕ)
    (hlenI : 148 ≤ maxLenI) (hlenR : 92 ≤ maxLenR)
    (hkey : (t.peers.get i).publicKey = S.scalarmultBase si)
    (hfirst : ∀ j < i, (t.peers.get j).publicKey ≠ S.scalarmultBase si)
    (hfresh : (t.peers.get i).lastHandshakeTime = 0 ∨ (t.peers.get i).lastHandshakeTime.toInt < tvSec.toInt)
    (hdh₁ : S.scalarmult ei (S.scalarmultBase sr) ≠ none) (hdh₂ : S.scalarmult si (S.scalarmultBase sr) ≠ none)
    (hdh₃ : S.scalarmult er (S.scalarmultBase ei) ≠ none) (hdh₄ : S.scalarmult er (S.scalarmultBase si) ≠ none) :
    ∃ initiation st, handshakeCreateInitiation S maxLenI si (S.scalarmultBase si) (S.scalarmultBase sr) idxI ei
        tvSec tvNsec = .ok (initiation, st) ∧
      ∃ init, handshakeConsumeInitiation S initiation sr (S.scalarmultBase sr) t = .ok init ∧
        init.peer = i ∧ init.chainingKey = st.chainingKey ∧ init.hash = st.hash ∧
        init.parsed.senderIndex = idxI ∧ st.localIndex = idxI ∧
      ∃ resp, handshakeCreateResponse S maxLenR init.parsed.unencryptedEphemeral (t.peers.get init.peer).publicKey idxR
          init.parsed.senderIndex init.chainingKey init.hash er = .ok resp ∧
      ∃ fin, handshakeConsumeResponse S resp.packet si st = .ok fin ∧
        fin.sendKey = resp.recvKey ∧ fin.recvKey = resp.sendKey ∧ fin.peerIndex = idxR := by
  obtain ⟨z₁, h₁⟩ := Option.ne_none_iff_exists'.mp hdh₁
  obtain ⟨z₂, h₂⟩ := Option.ne_none_iff_exists'.mp hdh₂
  obtain ⟨z₃, h₃⟩ := Option.ne_none_iff_exists'.mp hdh₃
  obtain ⟨z₄, h₄⟩ := Option.ne_none_iff_exists'.mp hdh₄
  have hfind : peerFindByPubkey t (S.scalarmultBase si) = some i := peerFindByPubkey_eq_some.mpr ⟨hkey, hfirst⟩
  obtain ⟨msg, hmsg⟩ : ∃ msg, msg = initiationMsg S (S.scalarmultBase si) (S.scalarmultBase sr) idxI
    (S.scalarmultBase ei) (timestampBytes tvSec tvNsec) z₁ z₂ := ⟨_, rfl⟩
  obtain ⟨st, hst⟩ : ∃ st, st = initiationState S msg (S.scalarmultBase sr) ei z₁ z₂ tvSec := ⟨_, rfl⟩
  have hsender : msg.senderIndex = idxI := by rw [hmsg]; rfl
  have hlocal : st.localIndex = msg.senderIndex := by rw [hst]; rfl
  have heph : msg.unencryptedEphemeral = S.scalarmultBase ei := by rw [hmsg]; rfl
  have hpriv : st.ephemeralPrivate = ei := by rw [hst]; rfl
  have hconsume : handshakeConsumeInitiation S msg.wire sr (S.scalarmultBase sr) t =
      .ok ⟨i, msg, st.chainingKey, st.hash, timestampBytes tvSec tvNsec⟩ := by
    rw [handshakeConsumeInitiation_honest hS hfind hfresh h₁ h₂ msg hmsg, hst]
    rfl
  rw [hS.dh_comm, ← hpriv] at h₃
  refine ⟨msg.wire, st, handshakeCreateInitiation_eq_ok.mpr ⟨hlenI, z₁, z₂, h₁, h₂, msg, hmsg, rfl, hst⟩,
    _, hconsume, rfl, rfl, rfl, hsender, hlocal.trans hsender, ?_⟩
  -- the response is made for the ephemeral, the peer and the index of the initiation
  have hresp : handshakeCreateResponse S maxLenR msg.unencryptedEphemeral (t.peers.get i).publicKey idxR msg.senderIndex
      st.chainingKey st.hash er = .ok
        ⟨(responseMsg S (t.peers.get i).publicKey idxR msg.senderIndex st.chainingKey st.hash (S.scalarmultBase er) z₃
          z₄).wire, (transportKeys S st.chainingKey (S.scalarmultBase er) z₃ z₄).1,
          (transportKeys S st.chainingKey (S.scalarmultBase er) z₃ z₄).2⟩ := by
    refine handshakeCreateResponse_eq_ok.mpr ⟨hlenR, z₃, z₄, ?_, by rw [hkey]; exact h₄, rfl, rfl, rfl⟩
    rw [heph, hS.dh_comm, ← hpriv]
    exact h₃
  rw [hS.dh_comm] at h₄
  rw [← hlocal] at hresp ⊢
  exact ⟨_, hresp, _, handshakeConsumeResponse_honest hS _ _ _ h₃ h₄, rfl, rfl, rfl⟩

/-- It does between the two toy hosts. -/
theorem handshake_completes_toy :
    ∃ initiation st resp fin, handshakeCreateInitiation toySodium 148 toyInitiatorPriv
        (toySodium.scalarmultBase toyInitiatorPriv) (toySodium.scalarmultBase toyResponderPriv) 7
        (List.Vector.replicate 32 11) 1000 0 = .ok (initiation, st) ∧
      handshakeConsumeResponse toySodium (CreatedResponse.packet resp) toyInitiatorPriv st = .ok fin ∧
      fin.sendKey = resp.recvKey ∧ fin.recvKey = resp.sendKey ∧ fin.peerIndex = 1 := by
  obtain ⟨initiation, st, hcreate, init, -, -, -, -, -, -, resp, -, fin, hconsume, hkeys⟩ :=
    handshake_completes toySodium toySodium_correct toyDaemon.table ⟨0, by decide⟩ toyInitiatorPriv toyResponderPriv
      (List.Vector.replicate 32 11) (List.Vector.replicate 32 13) 7 1 1000 0 148 92 le_rfl le_rfl rfl
      (fun j hj => absurd hj (Nat.not_lt_zero _)) (.inl rfl) nofun nofun nofun nofun
  exact ⟨initiation, st, resp, fin, hcreate, hconsume, hkeys⟩

end VpnTunnel
