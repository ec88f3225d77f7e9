import VpnTunnel.SymbolicSodium

/-!
# Session indices under tampering

Each side of a handshake tells the other the index of its session, in a field of its message that is
not encrypted, and addresses its data packets by the index it was told. This module asks whether the
two sides agree on the indices when the network may change the messages.

## The argument

They need not. The transcript and the keys cover the ephemerals and the sealed fields, but no index is
mixed in, and neither side looks at MAC1 (which does not cover the index either: it is taken from the
ephemeral on). So a network that writes other indices into both messages leaves everything that is
checked as it was. The one check on
an index is the initiator's, that the response names its own session: an initiation with a changed
index is answered under that index, and the response is refused unless the network writes the right
one back.

## What is proved

* `indices_tampered` — a run, without collisions, in which both sides accept and derive the same keys,
  and neither has the other's index.
* `indices_agree_iff` — the sides agree on the indices exactly when the sender indices of both messages
  arrive as they were sent.
-/

namespace VpnTunnel

open Octets

variable {β : Type} [Octet β] {S : Sodium β}

/-! ### Changing an index in flight -/

/-- An initiation in which the octets 4 to 7 are overwritten has another sender index, and is otherwise
the same. -/
theorem PacketHandshakeInit.writeAt_wire (msg : PacketHandshakeInit β) (idx : BitVec 32) :
    writeAt msg.wire 4 (le32Write idx).toList = { msg with senderIndex := idx }.wire :=
  writeAt_field (length_wireHeader _) (by simp)

/-- A response in which the octets 4 to 11 are overwritten has other indices, and is otherwise the same. -/
theorem PacketHandshakeResp.writeAt_wire (msg : PacketHandshakeResp β) (sender receiver : BitVec 32) :
    writeAt msg.wire 4 ((le32Write sender).toList ++ (le32Write receiver).toList) =
      { msg with senderIndex := sender, receiverIndex := receiver }.wire := by
  rw [PacketHandshakeResp.wire, ← List.append_assoc (le32Write msg.senderIndex).toList,
    writeAt_field (length_wireHeader _) (by simp), List.append_assoc]
  rfl

/-! ### Agreement -/

/-- **The two sides agree on the session indices exactly when the sender indices of both messages arrive
as they were sent.** The responder is a daemon that has accepted some datagram as an initiation, answers
it and installs a session; the initiator accepts some datagram as the response. The sender index of
the initiation arrives as it was sent exactly when the receiver index of the response does. -/
theorem indices_agree_iff [DecidableEq β] (S : Sodium β) (initiator : InitiationRun S) (left : PacketHandshakeInit β)
    (hleft : packetParseHandshakeInit initiator.packet = .ok left) (d : Daemon β) (initiation : List β)
    (init : ConsumedInitiation d.table) (hinit : InitiationAccepted S d initiation init)
    (arrived : PacketHandshakeInit β) (harrived : packetParseHandshakeInit initiation = .ok arrived)
    (ephemeral : Bytes β 32) (resp : CreatedResponse β) (hresp : d.respond S init ephemeral = .ok resp)
    (sent : PacketHandshakeResp β) (hsent : packetParseHandshakeResp resp.packet = .ok sent) (now : BitVec 64)
    (response : List β) (msg : PacketHandshakeResp β) (hmsg : packetParseHandshakeResp response = .ok msg)
    (fin : ConsumedResponse β)
    (hfin : handshakeConsumeResponse S response initiator.myPriv initiator.state = .ok fin) :
    ((fin.peerIndex = (d.newSession init resp now).localIndex ∧
        (d.newSession init resp now).peerIndex = initiator.state.localIndex) ↔
      msg.senderIndex = sent.senderIndex ∧ arrived.senderIndex = left.senderIndex) ∧
    (arrived.senderIndex = left.senderIndex ↔ msg.receiverIndex = sent.receiverIndex) := by
  obtain ⟨z₁, z₂, -, -, left', hleft', -, hstate⟩ := initiator.message
  cases hleft'.symm.trans hleft
  cases (handshakeConsumeInitiation_eq_ok.mp hinit.consume).1.symm.trans harrived
  obtain ⟨-, z₃, z₄, -, -, hpacket, -, -⟩ := handshakeCreateResponse_eq_ok.mp hresp
  rw [hpacket, packetParseHandshakeResp_wire] at hsent
  cases hsent
  obtain ⟨msg', hmsg', hreceiver, -, -, -, -, -, rfl⟩ := handshakeConsumeResponse_eq_ok.mp hfin
  cases hmsg'.symm.trans hmsg
  rw [hstate] at hreceiver
  rw [hstate, hreceiver]
  exact ⟨Iff.rfl, eq_comm⟩

/-- In the symbolic library, when nothing is changed. -/
theorem indices_agree_iff_symbolic :
    (symbolicDaemon.newSession (symbolicConsumed 7) symbolicResponder.response 0).peerIndex =
      symbolicInitiator.state.localIndex :=
  ((indices_agree_iff symbolicSodium symbolicInitiator _ (packetParseHandshakeInit_wire _) symbolicDaemon _
    (symbolicConsumed 7) ⟨packetPeekType_initiation _, symbolicInitiation_accepted 7⟩ _
    (packetParseHandshakeInit_wire _) (privateKey 4) _ symbolicResponder.created _
    (packetParseHandshakeResp_wire _) 0 _ _ (packetParseHandshakeResp_wire _) _
    (symbolicResponse_accepted 1)).1.mpr ⟨rfl, rfl⟩).2

/-- **Neither side need have the other's index.** The network writes 8 for the index 7 of the initiator into
the initiation, and 9 for the index 1 of the responder into the response, where it also puts 7 back.
Both messages are accepted, and the keys match. -/
theorem indices_tampered : ∃ init resp fin,
    InitiationAccepted symbolicSodium symbolicDaemon
      (writeAt symbolicInitiator.packet 4 (le32Write 8).toList) init ∧
    symbolicDaemon.respond symbolicSodium init (privateKey 4) = .ok resp ∧
    handshakeConsumeResponse symbolicSodium (writeAt resp.packet 4 ((le32Write 9).toList ++ (le32Write 7).toList))
      symbolicInitiator.myPriv symbolicInitiator.state = .ok fin ∧
    fin.sendKey = resp.recvKey ∧ fin.recvKey = resp.sendKey ∧
    fin.peerIndex ≠ (symbolicDaemon.newSession init resp 0).localIndex ∧
    (symbolicDaemon.newSession init resp 0).peerIndex ≠ symbolicInitiator.state.localIndex := by
  have hresp : symbolicDaemon.respond symbolicSodium (symbolicConsumed 8) (privateKey 4) =
      .ok ⟨(symbolicResponse 1 8).wire, symbolicTransport.1, symbolicTransport.2⟩ :=
    handshakeCreateResponse_eq_ok.mpr ⟨le_rfl, _, _, symbolicSodium_scalarmult _ _, symbolicSodium_scalarmult _ _,
      rfl, rfl, rfl⟩
  refine ⟨symbolicConsumed 8, _, ⟨9, symbolicTransport.2, symbolicTransport.1⟩, ?_, hresp, ?_, rfl, rfl,
    show (9 : BitVec 32) ≠ 1 by decide, show (8 : BitVec 32) ≠ 7 by decide⟩
  · rw [show symbolicInitiator.packet = (symbolicInitiation 7).wire from rfl, PacketHandshakeInit.writeAt_wire]
    exact ⟨packetPeekType_initiation _, symbolicInitiation_accepted 8⟩
  · rw [PacketHandshakeResp.writeAt_wire]
    exact symbolicResponse_accepted 9

end VpnTunnel
