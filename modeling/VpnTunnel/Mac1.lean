import VpnTunnel.ToySodium

/-!
# MAC1

An initiation carries in MAC1 a keyed hash of its ephemeral and its sealed fields, under a key that is
made from the responder's public key. It is there for the responder to look at first: "BLAKE2b MAC1
failure drops packet before DH point mult". This module asks whether it is looked at.

## The argument

It is not. `handshake_consume_initiation` parses the field and never reads it: with another MAC1 the
datagram is parsed to the same message but for that field, and from there on everything is the same. So the
gate is kept by the datagrams that need no gate, and by no other: whatever parses has its ephemeral
multiplied by the private key.

Nor is MAC1 the hash that the layout in `packet.c` gives, "msg=bytes[0..115]". It is made from the message in
memory, from the ephemeral on, and so leaves out the octets in front of it, the type and the indices. In a
response the length of 52 is four more than the ephemeral and the tag: the first four octets of the MAC's own
field, still cleared, are hashed too.

## What is proved

* `mac1_of_handshakeCreateInitiation` — the initiator sends the MAC1 of its own fields.
* `handshakeConsumeInitiation_writeAt_mac1` — what MAC1 is makes no difference.
* `mac1_gate_iff` — the gate is kept exactly for datagrams that verify, or are no initiations.
* `bad_mac1_accepted` — an initiation that does not verify, accepted.
* `mac1_coverage_iff` — what the MAC1 of the two messages is the hash of, and when it is the documented one.
-/

namespace VpnTunnel

open Octets

variable {β : Type} [Octet β] (S : Sodium β)

/-- MAC1 of an initiation for the responder with public key `Sr`. -/
def initiationMac1 (Sr Ei : Bytes β 32) (encryptedStatic : Bytes β 48) (encryptedTimestamp : Bytes β 28) : Bytes β 16 :=
  vpnCryptoMac16 S (vpnCryptoHash S Sr.toList) (Ei.toList ++ encryptedStatic.toList ++ encryptedTimestamp.toList)

/-- A datagram of the length of an initiation has the MAC1 of its own fields. -/
def Mac1Verifies (Sr : Bytes β 32) (packet : Bytes β 148) : Prop :=
  slice packet.toList 116 16 (by simp) =
    initiationMac1 S Sr (slice packet.toList 8 32 (by simp)) (slice packet.toList 40 48 (by simp))
      (slice packet.toList 88 28 (by simp))

/-- The points `handshake_consume_initiation` multiplies by the private key: the ephemeral of a datagram that
parses, then the static key it opens to, if that is a peer's. -/
def consumeInitiationPoints [DecidableEq β] (packet : List β) (myPrivkey myPubkey : Bytes β 32)
    (peerTable : PeerTable β) : List (Bytes β 32) :=
  match packetParseHandshakeInit packet with
  | .error _ => []
  | .ok parsed => parsed.unencryptedEphemeral ::
    match vpnCryptoDh S parsed.unencryptedEphemeral myPrivkey >>= fun z₁ =>
        openField S (n := 32) parsed.encryptedStatic (initiationHash₀ S myPubkey parsed.unencryptedEphemeral)
          (initiationKeys₁ S parsed.unencryptedEphemeral z₁).2 encryptedStatic_length with
    | .error _ => []
    | .ok theirStatic => if (peerFindByPubkey peerTable theirStatic).isSome then [theirStatic] else []

/-- The gate: what is accepted verifies, and what does not verify is refused before any point is multiplied. -/
structure Mac1Gate [DecidableEq β] (myPriv myPub : Bytes β 32) (t : PeerTable β) (packet : Bytes β 148) : Prop where
  /-- What is accepted verifies. -/
  accepted : ∀ r, handshakeConsumeInitiation S packet.toList myPriv myPub t = .ok r → Mac1Verifies S myPub packet
  /-- What does not verify is refused, and nothing is computed for it. -/
  refused : ¬ Mac1Verifies S myPub packet →
    (∃ e, handshakeConsumeInitiation S packet.toList myPriv myPub t = .error e) ∧
      consumeInitiationPoints S packet.toList myPriv myPub t = []

variable {S}

/-- The initiator puts this MAC1 on what it sends. -/
theorem mac1_of_handshakeCreateInitiation {maxLen : ℕ} {myPriv myPub theirPub ei : Bytes β 32} {idx : BitVec 32}
    {tvSec tvNsec : BitVec 64} {packet : List β} {st : HandshakeInitState β} {msg : PacketHandshakeInit β}
    (h : handshakeCreateInitiation S maxLen myPriv myPub theirPub idx ei tvSec tvNsec = .ok (packet, st))
    (hmsg : packetParseHandshakeInit packet = .ok msg) :
    msg.mac1 = initiationMac1 S theirPub msg.unencryptedEphemeral msg.encryptedStatic msg.encryptedTimestamp := by
  obtain ⟨-, z₁, z₂, -, -, msg', rfl, rfl, -⟩ := handshakeCreateInitiation_eq_ok.mp h
  rw [packetParseHandshakeInit_wire] at hmsg
  cases hmsg
  rfl

/-! ### Another MAC1 -/

/-- A message with another MAC1. -/
def PacketHandshakeInit.withMac1 (msg : PacketHandshakeInit β) (m : Bytes β 16) : PacketHandshakeInit β :=
  { msg with mac1 := m }

/-- What was consumed, with another MAC1. -/
def ConsumedInitiation.withMac1 {t : PeerTable β} (r : ConsumedInitiation t) (m : Bytes β 16) : ConsumedInitiation t :=
  { r with parsed := r.parsed.withMac1 m }

/-- A datagram with other octets 116 to 131 is parsed to the message with another MAC1. -/
theorem packetParseHandshakeInit_writeAt_mac1 (packet : Bytes β 148) (m : Bytes β 16) :
    packetParseHandshakeInit (writeAt packet.toList 116 m.toList) =
      (packetParseHandshakeInit packet.toList).map fun msg => msg.withMac1 m := by
  have hlen : (writeAt packet.toList 116 m.toList).length = 148 := by simp
  have hhead : (writeAt packet.toList 116 m.toList).get ⟨0, by omega⟩ = packet.toList.get ⟨0, by simp⟩ :=
    get_writeAt_of_lt (by decide) (by simp) (by omega)
  rw [packetParseHandshakeInit, packetParseHandshakeInit, dif_neg (not_not.mpr hlen),
    dif_neg (not_not.mpr packet.toList_length), hhead]
  split
  · rfl
  · refine congrArg Except.ok (PacketHandshakeInit.ext ?_ ?_ ?_ ?_ ?_ ?_)
    · exact congrArg le32Read (slice_writeAt_of_le (by decide) (by simp) (by omega))
    · exact slice_writeAt_of_le (by decide) (by simp) (by omega)
    · exact slice_writeAt_of_le (by decide) (by simp) (by omega)
    · exact slice_writeAt_of_le (by decide) (by simp) (by omega)
    · exact slice_writeAt (by simp) (by omega)
    · exact slice_writeAt_of_ge (by simp) (by simp) (by omega) (by simp)

/-- **MAC1 makes no difference** to what `handshake_consume_initiation` does. -/
theorem handshakeConsumeInitiation_writeAt_mac1 [DecidableEq β] (packet : Bytes β 148) (m : Bytes β 16)
    (myPriv myPub : Bytes β 32) (t : PeerTable β) :
    handshakeConsumeInitiation S (writeAt packet.toList 116 m.toList) myPriv myPub t =
      (handshakeConsumeInitiation S packet.toList myPriv myPub t).map fun r => r.withMac1 m := by
  rw [handshakeConsumeInitiation, handshakeConsumeInitiation, packetParseHandshakeInit_writeAt_mac1]
  refine map_bind_eq_map fun msg => ?_
  dsimp only [PacketHandshakeInit.withMac1]
  refine bind_eq_map fun z₁ => bind_eq_map fun theirStatic => ?_
  cases peerFindByPubkey t theirStatic with
  | none => rfl
  | some peer =>
    refine bind_eq_map fun z₂ => bind_eq_map fun timestamp => ?_
    split
    · rfl
    · rfl

/-! ### The gate -/

/-- A datagram of the right length parses when its first octet says that it is an initiation, to the fields
MAC1 is checked against. -/
theorem exists_parse_iff (packet : Bytes β 148) :
    (∃ msg, packetParseHandshakeInit packet.toList = .ok msg) ↔ toByte (packet.get 0) = 0x01#8 := by
  have hhead : packet.toList.get ⟨0, by simp⟩ = packet.get 0 := by
    rw [List.Vector.get_eq_get_toList]
    rfl
  rw [← hhead]
  constructor
  · rintro ⟨msg, hparse⟩
    exact (packetParseHandshakeInit_eq_ok.mp hparse).2.1
  · exact fun htype => ⟨_, packetParseHandshakeInit_eq_ok.mpr ⟨packet.toList_length, htype, rfl⟩⟩

/-- A datagram that parses has its ephemeral multiplied, one that does not has nothing. -/
theorem consumeInitiationPoints_eq_nil [DecidableEq β] {packet : List β} {myPriv myPub : Bytes β 32} {t : PeerTable β} :
    consumeInitiationPoints S packet myPriv myPub t = [] ↔ ¬ ∃ msg, packetParseHandshakeInit packet = .ok msg := by
  unfold consumeInitiationPoints
  cases packetParseHandshakeInit packet with
  | error e => simp
  | ok msg => simp

/-- For a datagram that is accepted two points are multiplied, the ephemeral and the key of the peer. -/
theorem consumeInitiationPoints_of_ok [DecidableEq β] {packet : List β} {myPriv myPub : Bytes β 32} {t : PeerTable β}
    {r : ConsumedInitiation t} (h : handshakeConsumeInitiation S packet myPriv myPub t = .ok r) :
    consumeInitiationPoints S packet myPriv myPub t =
      [r.parsed.unencryptedEphemeral, (t.peers.get r.peer).publicKey] := by
  obtain ⟨hparse, z₁, theirStatic, z₂, hopens, hfind, -⟩ := handshakeConsumeInitiation_eq_ok.mp h
  simp only [consumeInitiationPoints, hparse]
  rw [bind_eq_ok.mpr ⟨z₁, vpnCryptoDh_eq_ok.mpr hopens.dh₁, hopens.static⟩]
  simp only [hfind, Option.isSome_some, if_true, (peerFindByPubkey_eq_some.mp hfind).1]

/-- What does not parse is refused. -/
theorem handshakeConsumeInitiation_of_not_parse [DecidableEq β] {packet : List β} {myPriv myPub : Bytes β 32}
    {t : PeerTable β} (h : ¬ ∃ msg, packetParseHandshakeInit packet = .ok msg) :
    ∃ e, handshakeConsumeInitiation S packet myPriv myPub t = .error e := by
  cases hr : handshakeConsumeInitiation S packet myPriv myPub t with
  | error e => exact ⟨e, rfl⟩
  | ok r => exact absurd ⟨_, (handshakeConsumeInitiation_eq_ok.mp hr).1⟩ h

/-- **The gate is kept exactly for a datagram that verifies or is no initiation**, whatever the keys and the
table; and a datagram fares the same with any MAC1. -/
theorem mac1_gate_iff [DecidableEq β] (S : Sodium β) (packet : Bytes β 148) (myPriv myPub : Bytes β 32)
    (t : PeerTable β) :
    (Mac1Gate S myPriv myPub t packet ↔ (toByte (packet.get 0) = 0x01#8 → Mac1Verifies S myPub packet)) ∧
    ∀ m : Bytes β 16, handshakeConsumeInitiation S (writeAt packet.toList 116 m.toList) myPriv myPub t =
      (handshakeConsumeInitiation S packet.toList myPriv myPub t).map fun r => r.withMac1 m := by
  refine ⟨?_, fun m => handshakeConsumeInitiation_writeAt_mac1 packet m myPriv myPub t⟩
  rw [← exists_parse_iff]
  constructor
  · intro hgate hparse
    by_contra hbad
    exact consumeInitiationPoints_eq_nil.mp (hgate.refused hbad).2 hparse
  · intro hverifies
    refine ⟨fun r hr => hverifies ⟨_, (handshakeConsumeInitiation_eq_ok.mp hr).1⟩, fun hbad => ?_⟩
    have hparse := mt hverifies hbad
    exact ⟨handshakeConsumeInitiation_of_not_parse hparse, consumeInitiationPoints_eq_nil.mpr hparse⟩

/-- An initiation of the toy initiator, with MAC1 all zero. -/
def toyBadMac1 : Bytes (BitVec 8) 148 :=
  ⟨writeAt (toyInitiation 7 11 1000) 116 (List.replicate 16 0), by decide +kernel⟩

/-- **An initiation whose MAC1 does not verify is accepted**, after two points were multiplied for it. -/
theorem bad_mac1_accepted :
    ¬ Mac1Verifies toySodium toyDaemon.staticPub toyBadMac1 ∧
    (∃ r, handshakeConsumeInitiation toySodium toyBadMac1.toList toyDaemon.staticPriv toyDaemon.staticPub
      toyDaemon.table = .ok r) ∧
    (consumeInitiationPoints toySodium toyBadMac1.toList toyDaemon.staticPriv toyDaemon.staticPub
      toyDaemon.table).length = 2 := by
  have haccepted : (handshakeConsumeInitiation toySodium toyBadMac1.toList toyDaemon.staticPriv toyDaemon.staticPub
      toyDaemon.table).isOk = true := by decide +kernel
  refine ⟨by unfold Mac1Verifies; decide +kernel, ?_⟩
  cases hr : handshakeConsumeInitiation toySodium toyBadMac1.toList toyDaemon.staticPriv toyDaemon.staticPub
    toyDaemon.table with
  | error e =>
    rw [hr] at haccepted
    cases haccepted
  | ok r => exact ⟨⟨r, rfl⟩, congrArg List.length (consumeInitiationPoints_of_ok hr)⟩

/-! ### What it covers -/

section

variable (S)

/-- MAC1 of an initiation is the keyed hash of the octets in front of it, 0 to 115. -/
def InitiationMac1Documented (theirPubkey : Bytes β 32) (packet : List β) : Prop :=
  (packet.drop 116).take 16 =
    (vpnCryptoMac16 S (vpnCryptoHash S theirPubkey.toList) (packet.take 116)).toList

/-- MAC1 of a response is the keyed hash of the octets in front of it, 0 to 59. -/
def ResponseMac1Documented (theirStatic : Bytes β 32) (packet : List β) : Prop :=
  (packet.drop 60).take 16 =
    (vpnCryptoMac16 S (vpnCryptoHash S theirStatic.toList) (packet.take 60)).toList

end

/-- MAC1 of an initiation that was created is the hash of octets 8 to 115 of its 148. -/
theorem initiation_mac1_covers {maxLen : ℕ} {myPriv myPub theirPub ei : Bytes β 32} {idx : BitVec 32}
    {tvSec tvNsec : BitVec 64} {packet : List β} {st : HandshakeInitState β}
    (h : handshakeCreateInitiation S maxLen myPriv myPub theirPub idx ei tvSec tvNsec = .ok (packet, st)) :
    packet.length = 148 ∧ (packet.drop 116).take 16 =
      (vpnCryptoMac16 S (vpnCryptoHash S theirPub.toList) ((packet.drop 8).take 108)).toList := by
  obtain ⟨-, z₁, z₂, -, -, msg, hmsg, rfl, -⟩ := handshakeCreateInitiation_eq_ok.mp h
  have hmac : (msg.wire.drop 116).take 16 = msg.mac1.toList := by
    simp [PacketHandshakeInit.wire, List.drop_append, List.drop_of_length_le]
  have hcovered : (msg.wire.drop 8).take 108 =
      msg.unencryptedEphemeral.toList ++ msg.encryptedStatic.toList ++ msg.encryptedTimestamp.toList := by
    simp [PacketHandshakeInit.wire, List.drop_append, List.take_append, List.drop_of_length_le, List.take_of_length_le]
  refine ⟨by simp [PacketHandshakeInit.wire], ?_⟩
  rw [hmac, hcovered, hmsg]
  rfl

/-- MAC1 of a response that was created is the hash of octets 12 to 59 of its 92 and four zero octets. -/
theorem response_mac1_covers {maxLen : ℕ} {theirEph theirStatic ck hash er : Bytes β 32} {myIdx theirIdx : BitVec 32}
    {r : CreatedResponse β}
    (h : handshakeCreateResponse S maxLen theirEph theirStatic myIdx theirIdx ck hash er = .ok r) :
    r.packet.length = 92 ∧ (r.packet.drop 60).take 16 = (vpnCryptoMac16 S (vpnCryptoHash S theirStatic.toList)
      ((r.packet.drop 12).take 48 ++ (zeroBytes 4 : Bytes β 4).toList)).toList := by
  obtain ⟨-, z₃, z₄, -, -, hpacket, -⟩ := handshakeCreateResponse_eq_ok.mp h
  have hmac (msg : PacketHandshakeResp β) : (msg.wire.drop 60).take 16 = msg.mac1.toList := by
    simp [PacketHandshakeResp.wire, List.drop_append, List.drop_of_length_le]
  have hcovered (msg : PacketHandshakeResp β) :
      (msg.wire.drop 12).take 48 = msg.unencryptedEphemeral.toList ++ msg.encryptedNothing.toList := by
    simp [PacketHandshakeResp.wire, List.drop_append, List.take_append, List.drop_of_length_le, List.take_of_length_le]
  rw [hpacket, hmac, hcovered]
  exact ⟨by simp [PacketHandshakeResp.wire], rfl⟩

/-- **MAC1 is the documented hash exactly when two messages collide.** The one that is hashed for an initiation
lacks the eight octets in front of the ephemeral; the one for a response lacks twelve, and has four zero octets
behind the tag. Where no message collides with one that is eight octets longer, it never is. -/
theorem mac1_coverage_iff (S : Sodium β) :
    (∀ maxLen myPriv myPub theirPub idx ei tvSec tvNsec packet st,
      handshakeCreateInitiation S maxLen myPriv myPub theirPub idx ei tvSec tvNsec = .ok (packet, st) →
      (packet.drop 116).take 16 =
        (vpnCryptoMac16 S (vpnCryptoHash S theirPub.toList) ((packet.drop 8).take 108)).toList ∧
      (InitiationMac1Documented S theirPub packet ↔
        vpnCryptoMac16 S (vpnCryptoHash S theirPub.toList) ((packet.drop 8).take 108) =
          vpnCryptoMac16 S (vpnCryptoHash S theirPub.toList) (packet.take 116))) ∧
    (∀ maxLen theirEph theirStatic myIdx theirIdx ck hash er r,
      handshakeCreateResponse S maxLen theirEph theirStatic myIdx theirIdx ck hash er = .ok r →
      (r.packet.drop 60).take 16 = (vpnCryptoMac16 S (vpnCryptoHash S theirStatic.toList)
        ((r.packet.drop 12).take 48 ++ (zeroBytes 4 : Bytes β 4).toList)).toList ∧
      (ResponseMac1Documented S theirStatic r.packet ↔
        vpnCryptoMac16 S (vpnCryptoHash S theirStatic.toList)
            ((r.packet.drop 12).take 48 ++ (zeroBytes 4 : Bytes β 4).toList) =
          vpnCryptoMac16 S (vpnCryptoHash S theirStatic.toList) (r.packet.take 60))) ∧
    ((∀ key m m', m.length + 8 = m'.length → vpnCryptoMac16 S key m ≠ vpnCryptoMac16 S key m') →
      (∀ maxLen myPriv myPub theirPub idx ei tvSec tvNsec packet st,
        handshakeCreateInitiation S maxLen myPriv myPub theirPub idx ei tvSec tvNsec = .ok (packet, st) →
        ¬ InitiationMac1Documented S theirPub packet) ∧
      (∀ maxLen theirEph theirStatic myIdx theirIdx ck hash er r,
        handshakeCreateResponse S maxLen theirEph theirStatic myIdx theirIdx ck hash er = .ok r →
        ¬ ResponseMac1Documented S theirStatic r.packet)) := by
  refine ⟨?_, ?_, ?_⟩
  · intro maxLen myPriv myPub theirPub idx ei tvSec tvNsec packet st h
    have hcovers := (initiation_mac1_covers h).2
    refine ⟨hcovers, ?_⟩
    rw [InitiationMac1Documented, hcovers]
    exact ⟨List.Vector.eq _ _, congrArg List.Vector.toList⟩
  · intro maxLen theirEph theirStatic myIdx theirIdx ck hash er r h
    have hcovers := (response_mac1_covers h).2
    refine ⟨hcovers, ?_⟩
    rw [ResponseMac1Documented, hcovers]
    exact ⟨List.Vector.eq _ _, congrArg List.Vector.toList⟩
  · intro hapart
    constructor
    · intro maxLen myPriv myPub theirPub idx ei tvSec tvNsec packet st h hdoc
      obtain ⟨hlen, hcovers⟩ := initiation_mac1_covers h
      refine hapart _ _ _ ?_ (List.Vector.eq _ _ (hcovers.symm.trans hdoc))
      rw [List.length_take, List.length_drop, List.length_take]
      omega
    · intro maxLen theirEph theirStatic myIdx theirIdx ck hash er r h hdoc
      obtain ⟨hlen, hcovers⟩ := response_mac1_covers h
      refine hapart _ _ _ ?_ (List.Vector.eq _ _ (hcovers.symm.trans hdoc))
      rw [List.length_append, List.length_take, List.length_drop, List.length_take, List.Vector.toList_length]
      omega

/-- **The MAC1 that is sent is not the documented one**: an initiation and a response of the toy hosts. -/
theorem mac1_not_over_preceding :
    (∃ packet st, handshakeCreateInitiation toySodium 148 toyInitiatorPriv toyInitiatorPriv toyResponderPriv 7
        toyInitiatorPriv 1000 0 = .ok (packet, st) ∧ ¬ InitiationMac1Documented toySodium toyResponderPriv packet) ∧
    ∃ r, handshakeCreateResponse toySodium 92 toyInitiatorPriv toyInitiatorPriv 1 7 toyResponderPriv toyResponderPriv
        toyResponderPriv = .ok r ∧ ¬ ResponseMac1Documented toySodium toyInitiatorPriv r.packet := by
  constructor
  · refine ⟨_, _, rfl, ?_⟩
    unfold InitiationMac1Documented
    decide +kernel
  · refine ⟨_, rfl, ?_⟩
    unfold ResponseMac1Documented
    decide +kernel

end VpnTunnel
