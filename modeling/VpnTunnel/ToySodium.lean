import VpnTunnel.SessionKeys

/-!
# A library to compute with

`toySodium` is a `Sodium` over real bytes that is small enough to evaluate: a checksum for a hash,
xor with a pad for a cipher, addition for a key exchange. It hides nothing and collides often, but it
is correct in the sense of `Sodium.Correct`, and with it the handshake and the daemon run on concrete
datagrams: a statement about every correct library can be tried on it, and a run that breaks a
property of the tunnel can be exhibited.

Around it stand two hosts and a daemon: `toyInitiation` is what the first host sends to set up a
session with the second one, whose daemon is `toyDaemon`.
-/

namespace VpnTunnel

open Octets

/-- A checksum of a key and a message. -/
def toyDigest (msg key : List (BitVec 8)) : ℕ :=
  (key ++ msg).foldl (fun acc b => (acc * 31 + b.toNat + 7) % 65521) key.length

/-- The checksum spread over `n` octets. -/
def toyHash (n : ℕ) (msg key : List (BitVec 8)) : Bytes (BitVec 8) n :=
  ⟨(List.range n).map fun i => BitVec.ofNat 8 (toyDigest msg key / 256 ^ (i % 2) + i), by simp⟩

/-- The exclusive or of every octet with the first octet of the key. -/
def toyPad {n : ℕ} (key : Bytes (BitVec 8) 32) (m : Bytes (BitVec 8) n) : Bytes (BitVec 8) n :=
  m.map fun b => b ^^^ key.head

/-- Add two strings octet by octet. -/
def toyAdd {n : ℕ} (a b : Bytes (BitVec 8) n) : Bytes (BitVec 8) n :=
  ⟨List.zipWith (· + ·) a.toList b.toList, by simp⟩

/-- The toy library. -/
def toySodium : Sodium (BitVec 8) where
  generichash := toyHash
  encryptDetached key nonce ad m := (toyPad key m, toyHash 16 (nonce.toList ++ ad ++ (toyPad key m).toList) key.toList)
  decryptDetached key nonce ad c tag :=
    if tag = toyHash 16 (nonce.toList ++ ad ++ c.toList) key.toList then some (toyPad key c) else none
  scalarmult n p := some (toyAdd n p)
  scalarmultBase n := n

theorem toyPad_toyPad {n : ℕ} (key : Bytes (BitVec 8) 32) (m : Bytes (BitVec 8) n) : toyPad key (toyPad key m) = m := by
  refine List.Vector.ext fun i => ?_
  rw [toyPad, toyPad, List.Vector.get_map, List.Vector.get_map, BitVec.xor_assoc, BitVec.xor_self, BitVec.xor_zero]

theorem toySodium_correct : toySodium.Correct where
  dh_comm a b := by
    refine congrArg some (List.Vector.eq _ _ ?_)
    simp only [toyAdd, List.Vector.toList_mk]
    exact List.zipWith_comm_of_comm BitVec.add_comm
  decrypt_encrypt key nonce ad m := by
    simp only [toySodium, if_true, toyPad_toyPad]

theorem toySodium_aeadExact : toySodium.AeadExact := by
  intro n key nonce ad m c tag
  simp only [toySodium, Prod.mk.injEq, Option.ite_none_right_eq_some, Option.some.injEq]
  constructor
  · rintro ⟨htag, rfl⟩
    rw [toyPad_toyPad]
    exact ⟨rfl, htag.symm⟩
  · rintro ⟨rfl, rfl⟩
    exact ⟨rfl, toyPad_toyPad key m⟩

theorem toySodium_dhByPoint : toySodium.DhByPoint := fun _ _ _ h => by cases h

/-- The private key of the initiator. -/
def toyInitiatorPriv : Bytes (BitVec 8) 32 := List.Vector.replicate 32 3

/-- The private key of the responder. -/
def toyResponderPriv : Bytes (BitVec 8) 32 := List.Vector.replicate 32 5

/-- The initiator as a peer of the responder: it may use any address, and has no session yet. -/
def toyPeer : Peer (BitVec 8) :=
  { publicKey := toySodium.scalarmultBase toyInitiatorPriv
    endpoint := Endpoint.unset
    allowedIps := [⟨0, 0, 0⟩]
    allowedIps_le := by decide
    currentSession := Session.zero
    previousSession := Session.zero
    lastHandshakeTime := 0 }

/-- The daemon of the responder. -/
def toyDaemon : Daemon (BitVec 8) :=
  { staticPriv := toyResponderPriv
    staticPub := toySodium.scalarmultBase toyResponderPriv
    table := ⟨[toyPeer], by decide, 1⟩
    tun := ⟨true, 1440⟩ }

/-- The initiation of the initiator, with session index `idx`, an ephemeral key and a time. -/
def toyInitiation (idx : BitVec 32) (ephemeral : BitVec 8) (sec : BitVec 64) : List (BitVec 8) :=
  match handshakeCreateInitiation toySodium 148 toyInitiatorPriv (toySodium.scalarmultBase toyInitiatorPriv)
      (toySodium.scalarmultBase toyResponderPriv) idx (List.Vector.replicate 32 ephemeral) sec 0 with
  | .ok (packet, _) => packet
  | .error _ => []

/-- What the initiator keeps after `toyInitiation 7 11 1000`. -/
def toyInitState : HandshakeInitState (BitVec 8) :=
  match handshakeCreateInitiation toySodium 148 toyInitiatorPriv (toySodium.scalarmultBase toyInitiatorPriv)
      (toySodium.scalarmultBase toyResponderPriv) 7 (List.Vector.replicate 32 11) 1000 0 with
  | .ok (_, st) => st
  | .error _ => ⟨zeroBytes 32, zeroBytes 32, zeroBytes 32, 0, 0⟩

/-- A response to it, with an ephemeral key of the responder. -/
def toyResponse (ephemeral : BitVec 8) : List (BitVec 8) :=
  match handshakeCreateResponse toySodium 92 (List.Vector.replicate 32 11) (toySodium.scalarmultBase toyInitiatorPriv)
      1 7 toyInitState.chainingKey toyInitState.hash (List.Vector.replicate 32 ephemeral) with
  | .ok resp => resp.packet
  | .error _ => []

/-- A datagram that arrives at the responder, from port 9 of 127.0.0.1, when its clock shows `now`. -/
def toyRecv (datagram : List (BitVec 8)) (ephemeral : BitVec 8) (now : BitVec 64) : Event (BitVec 8) :=
  .udp ⟨⟨.inet 9 0x7f000001, 16⟩, datagram, List.Vector.replicate 32 ephemeral, now, now⟩

/-- A data packet sealed with the toy library. -/
def toyData (idx : BitVec 32) (counter : BitVec 64) (key : Bytes (BitVec 8) 32) (plain : List (BitVec 8)) :
    List (BitVec 8) :=
  let sealed := vpnCryptoAeadEncrypt toySodium (ofList plain) [] counter key
  PacketData.wire ⟨idx, counter, sealed.1.toList, sealed.2⟩

/-- The daemon reads such a packet whole, and finds the index and the counter in it. -/
theorem toyData_parses (idx : BitVec 32) (counter : BitVec 64) (key : Bytes (BitVec 8) 32) {plain : List (BitVec 8)}
    (h : plain.length ≤ 1440) : (toyData idx counter key plain).take 2048 = toyData idx counter key plain ∧
      ∃ c tag, packetParseData (toyData idx counter key plain) = .ok ⟨idx, counter, c, tag⟩ := by
  constructor
  · refine List.take_of_length_le ?_
    rw [toyData, PacketData.length_wire, List.Vector.toList_length]
    omega
  · exact ⟨_, _, packetParseData_wire (by rw [List.Vector.toList_length]; exact h)⟩

/-- The session the daemon installs first. -/
def toySession : Session (BitVec 8) :=
  ((runLoop toySodium toyDaemon [toyRecv (toyInitiation 7 11 1000) 13 500]).1.table.peers.map
    Peer.currentSession).headD Session.zero

/-- A packet of 20 octets for that session. -/
def toyPacket : List (BitVec 8) := toyData 1 0 toySession.recvKey (List.replicate 20 1)

/-- The daemon reads the packet whole and opens it to what was sealed. -/
theorem toyPacket_opens : ∃ parsed plain, packetParseData (toyPacket.take 2048) = .ok parsed ∧
    parsed.receiverIndex = 1 ∧ parsed.counter = 0 ∧
    vpnCryptoAeadDecrypt toySodium (ofList parsed.ciphertext) parsed.authTag [] parsed.counter toySession.recvKey =
      .ok plain ∧ plain.toList = List.replicate 20 1 := by
  have htake : toyPacket.take 2048 = toyPacket :=
    (toyData_parses 1 0 toySession.recvKey (show (List.replicate 20 1).length ≤ 1440 by decide)).1
  obtain ⟨plain, hopens, hplain⟩ := vpnCryptoAeadDecrypt_ofList (Sodium.AeadInverts.aeadDecrypt_aeadEncrypt
    toySodium_correct.decrypt_encrypt (ofList (List.replicate 20 1)) [] 0 toySession.recvKey)
  refine ⟨⟨1, 0, _, _⟩, plain, htake.symm ▸ packetParseData_wire ?_, rfl, rfl, hopens, hplain⟩
  rw [List.Vector.toList_length]
  decide

/-- The daemon after the first initiation, with one session. -/
def toyEstablished : Daemon (BitVec 8) := (runLoop toySodium toyDaemon [toyRecv (toyInitiation 7 11 1000) 13 500]).1

/-- Its one peer. -/
def toyIndex : Fin toyEstablished.table.peers.length := ⟨0, by decide +kernel⟩

theorem noSessions_toyDaemon : toyDaemon.table.NoSessions :=
  PeerTable.noSessions_of_forall (by decide)

/-- The session of the peer. -/
theorem toyEstablished_session :
    (toyEstablished.table.peers.get toyIndex).session .current = toySession ∧ toySession.state = .established := by
  decide +kernel

end VpnTunnel
