import VpnTunnel.Delivery

/-!
# Packet sizes at the two ends

How long a packet may be is decided in different places: `tun_read` fills a buffer of 2048 octets,
`packet_serialize_data` asks for room in another one of 2048, and only `packet_parse_data` knows the
maximum of 1472 octets on the wire, that is 1440 of payload. The serialiser documents the same maximum,
"0 for keepalive, 1..1440 for data", and does not check it; the device is set to it by an `ioctl` whose
failure is only logged.

So packets of 1441 to 2016 octets read from the device take a counter, are sealed and sent, and refused
by every receiver.

## What is proved

* `sent_parses_iff` — what is sent is parsed exactly when the packet has at most 1440 octets, on the
  outbound path and for the serialiser on its own.
* `oversized_sent` — a packet that is sent and cannot be parsed.
-/

namespace VpnTunnel

open Octets

variable {β : Type} [Octet β]

/-- A data packet that is too long is refused for its length. -/
theorem packetParseData_wire_of_long {msg : PacketData β} (h : 1440 < msg.ciphertext.length) :
    packetParseData msg.wire = .error .emsgsize := by
  have hlen := PacketData.length_wire msg
  rw [packetParseData, dif_neg (by omega), if_pos (by omega)]

/-- A data packet laid out on the wire parses exactly when its ciphertext has at most 1440 octets. -/
theorem packetParseData_wire_iff {msg : PacketData β} : packetParseData msg.wire = .ok msg ↔
    msg.ciphertext.length ≤ 1440 := by
  refine ⟨fun hparse => ?_, packetParseData_wire⟩
  by_contra hlong
  rw [packetParseData_wire_of_long (Nat.lt_of_not_le hlong)] at hparse
  cases hparse

/-- What is sent for a packet: one datagram, if that fits the buffer. -/
theorem mem_sendSealed {S : Sodium β} {p : Peer β} {b pkt : List β} {dest : Endpoint} :
    .send dest pkt ∈ sendSealed S p b ↔
      b.length ≤ 2016 ∧ dest = p.endpoint ∧ pkt = (sealedPacket S p.currentSession b).wire := by
  have hlen : (vpnCryptoAeadEncrypt S (ofList b) [] p.currentSession.sendingCounter
      p.currentSession.sendKey).1.toList.length = b.length := List.Vector.toList_length _
  unfold sendSealed
  dsimp only
  split
  · next pkt' hok =>
    obtain ⟨hsize, hwire⟩ := packetSerializeData_eq_ok.mp hok
    rw [List.mem_singleton, Effect.send.injEq, hwire]
    exact ⟨fun heq => ⟨by omega, heq⟩, fun h => h.2⟩
  · next e herr =>
    refine ⟨fun h => absurd h List.not_mem_nil, fun h => ?_⟩
    rw [packetSerializeData_ok (by omega)] at herr
    cases herr

/-- Only a packet that is routed is sent. -/
theorem exists_routed_of_mem {S : Sodium β} {d : Daemon β} {packet pkt : List β} {dest : Endpoint}
    (h : .send dest pkt ∈ (tunStep S d packet).2) :
    ∃ i, Routed d (packet.take 2048) i ∧ .send dest pkt ∈ sendSealed S (d.table.peers.get i) (packet.take 2048) := by
  by_cases hroute : ∃ i, Routed d (packet.take 2048) i
  · obtain ⟨i, hroute⟩ := hroute
    rw [tunStep_of_routed hroute, List.mem_cons] at h
    exact ⟨i, hroute, h.resolve_left nofun⟩
  · rw [tunStep_of_not_routed (not_exists.mp hroute)] at h
    exact absurd h List.not_mem_nil

/-- **What is sent is parsed exactly when it has at most 1440 octets of payload.** On the outbound path, for
every state and every packet that is read, the datagram handed to `transport_send` is accepted by
`packet_parse_data` if and only if the packet has at most 1440 octets; and so it is with every output of
`packet_serialize_data`, which is then parsed to the fields it was made from. -/
theorem sent_parses_iff (S : Sodium β) :
    (∀ (d : Daemon β) (packet : List β) (dest : Endpoint) (pkt : List β), .send dest pkt ∈ (tunStep S d packet).2 →
      ((∃ parsed, packetParseData pkt = .ok parsed) ↔ (packet.take 2048).length ≤ 1440)) ∧
    ∀ (bufSize : ℕ) (receiverIndex : BitVec 32) (counter : BitVec 64) (ciphertext : List β) (authTag : Bytes β 16)
      (b : List β), packetSerializeData bufSize receiverIndex counter ciphertext authTag = .ok b →
      (packetParseData b = .ok ⟨receiverIndex, counter, ciphertext, authTag⟩ ↔ ciphertext.length ≤ 1440) := by
  constructor
  · intro d packet dest pkt hsend
    obtain ⟨i, -, hmem⟩ := exists_routed_of_mem hsend
    obtain ⟨-, -, rfl⟩ := mem_sendSealed.mp hmem
    rw [← length_sealedPacket (S := S) (s := (d.table.peers.get i).currentSession)]
    constructor
    · rintro ⟨parsed, hparse⟩
      by_contra hlong
      rw [packetParseData_wire_of_long (Nat.lt_of_not_le hlong)] at hparse
      cases hparse
    · exact fun hlen => ⟨_, packetParseData_wire hlen⟩
  · intro bufSize receiverIndex counter ciphertext authTag b hok
    rw [(packetSerializeData_eq_ok.mp hok).2]
    exact packetParseData_wire_iff

/-- A packet of 1441 octets read from the device. -/
def toyOversized : List (BitVec 8) := List.replicate 1441 0

theorem toyOversized_routed : ∃ i, Routed toyEstablished (toyOversized.take 2048) i :=
  ⟨toyIndex, by decide +kernel⟩

/-- **It is sent, and the datagram is refused for its length.** So is one made of as many octets by the
serialiser. -/
theorem oversized_sent :
    (∃ dest pkt, .send dest pkt ∈ (tunStep toySodium toyEstablished toyOversized).2 ∧
      packetParseData pkt = .error .emsgsize) ∧
    ∃ b, packetSerializeData 2048 1 0 toyOversized (zeroBytes 16) = .ok b ∧ packetParseData b = .error .emsgsize := by
  have hlen : toyOversized.length = 1441 := List.length_replicate
  have htake : toyOversized.take 2048 = toyOversized := List.take_of_length_le (by omega)
  constructor
  · obtain ⟨i, hroute⟩ := toyOversized_routed
    have hsend : .send (toyEstablished.table.peers.get i).endpoint
        (sealedPacket toySodium (toyEstablished.table.peers.get i).currentSession toyOversized).wire ∈
          (tunStep toySodium toyEstablished toyOversized).2 := by
      rw [tunStep_of_routed hroute, htake]
      exact List.mem_cons_of_mem _ (mem_sendSealed.mpr ⟨by omega, rfl, rfl⟩)
    exact ⟨_, _, hsend, packetParseData_wire_of_long (by rw [length_sealedPacket, hlen]; decide)⟩
  · exact ⟨_, packetSerializeData_ok (by omega) _ _ _, packetParseData_wire_of_long (by dsimp only; omega)⟩

end VpnTunnel
