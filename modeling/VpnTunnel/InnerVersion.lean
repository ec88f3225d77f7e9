import VpnTunnel.ChannelSafety

/-!
# Packets that are not IPv4

Cryptographic routing reads the addresses of "Cleartext IPv4 Packets": the source at offset 12 of a
packet received, the destination at offset 16 of a packet to send. The loop reads them in every packet
of at least 20 octets and does not look at the version in the first one. In an IPv6 packet octets 12 to
15 lie inside the source address and 16 to 19 inside it too, so what is compared with the AllowedIPs is
no address at all, and "IP spoofing" by such packets is not prevented.

## The argument

The address check is made on every packet that is written, and the routing lookup on every packet that
is sealed. So what can go wrong is the version only, and it is whatever the two sides of the daemon
supply: the peer in the payloads that open under its keys, the kernel in the packets it hands over.
The loop looks at neither. What it decides on (the session index, the replay filter, the AllowedIPs, the
state of the device) has no part in the condition.

## What is proved

* `ipv4_only` — a run in which only IPv4 is supplied writes and seals IPv4 packets only.
* `ipv6_routed` — a run that writes and seals IPv6 packets.
-/

namespace VpnTunnel

open Octets

variable {β : Type} [Octet β]

/-- The version of an IP packet: the upper half of its first octet. -/
def ipVersion (buf : List β) : ℕ :=
  match buf with
  | [] => 0
  | b :: _ => (toByte b).toNat / 16

/-- The receive keys of the sessions in use. -/
def Daemon.recvKeys (d : Daemon β) : List (Bytes β 32) :=
  d.table.peers.flatMap fun p => p.keysInUse Session.recvKey

/-- What is supplied is IPv4: by a peer, every payload long enough for a header that opens under the key of
a session; by the kernel, every packet of that length. -/
def Ipv4Supplied (S : Sodium β) (d : Daemon β) : Event β → Prop
  | .udp r => ∀ key ∈ d.recvKeys, ∀ parsed, packetParseData (r.datagram.take 2048) = .ok parsed →
      ∀ plain, vpnCryptoAeadDecrypt S (ofList parsed.ciphertext) parsed.authTag [] parsed.counter key = .ok plain →
        20 ≤ plain.toList.length → ipVersion plain.toList = 4
  | .tun packet => 20 ≤ packet.length → ipVersion packet = 4

instance (S : Sodium β) (d : Daemon β) : DecidablePred (Ipv4Supplied S d)
  | .udp _ => List.decidableBAll _ d.recvKeys
  | .tun _ => inferInstanceAs (Decidable (_ → _))

/-- The peer `i` of a table may use an address. -/
def PeerTable.Allows (t : PeerTable β) (i : ℕ) (ip : BitVec 32) : Prop :=
  ∃ p, t.peers[i]? = some p ∧ peerAllowsSourceIp p ip = true

omit [Octet β] in
theorem PeerTable.allows_get {t : PeerTable β} {i : Fin t.peers.length} {ip : BitVec 32}
    (h : peerAllowsSourceIp (t.peers.get i) ip = true) : t.Allows i ip :=
  ⟨t.peers.get i, by rw [List.get_eq_getElem, List.getElem?_eq_getElem i.isLt], h⟩

/-- Cutting a packet to the buffer does not touch its first octet. -/
theorem ipVersion_take {n : ℕ} (buf : List β) : ipVersion (buf.take (n + 1)) = ipVersion buf := by
  cases buf with
  | nil => rfl
  | cons b bs => rfl

/-- A packet is accepted under the key of a session in use. -/
theorem DataAccepted.mem_recvKeys {S : Sodium β} {d : Daemon β} {buf : List β} {parsed : PacketData β}
    {i : Fin d.table.peers.length} {slot : Slot} {plain : Bytes β parsed.ciphertext.length}
    (h : DataAccepted S d buf parsed i slot plain) : ((d.table.peers.get i).session slot).recvKey ∈ d.recvKeys :=
  List.mem_flatMap.mpr ⟨d.table.peers.get i, List.get_mem .., Peer.mem_keysInUse.mpr
    ⟨slot, _, ⟨rfl, (peerFindByIndex_eq_some h.find).1⟩, rfl⟩⟩

variable [DecidableEq β]

/-- Only a packet from the TUN device is sealed, under the key of the peer it is routed to. -/
theorem StepCase.routed_of_encrypt {S : Sodium β} {d d' : Daemon β} {ev : Event β} {effects : List (Effect β)}
    (h : StepCase S d ev d' effects) {key : Bytes β 32} {nonce : Bytes β 12} {buf : List β}
    (he : .encrypt key nonce buf ∈ effects) : ∃ packet i, ev = .tun packet ∧ buf = packet.take 2048 ∧ Routed d buf i ∧
      key = (d.table.peers.get i).currentSession.sendKey := by
  cases h with
  | idle => exact absurd he List.not_mem_nil
  | data h => cases (mem_deliver.mp he).1
  | initiation _ _ => simp at he
  | unanswered _ _ => simp at he
  | outbound h =>
    rcases List.mem_cons.mp he with heq | hsent
    · cases heq
      exact ⟨_, _, rfl, rfl, h, rfl⟩
    · obtain ⟨dest, pkt, heq⟩ := eq_send_of_mem_sendSealed hsent
      cases heq

/-- **A run in which only IPv4 is supplied deals with IPv4 packets only.** Every packet written to the TUN
device has version 4 and a source address the peer may use, and every packet encrypted is one read from the
device, with version 4 and a destination address that the peer may use whose key it is encrypted under. -/
theorem ipv4_only (S : Sodium β) (d : Daemon β) (events : List (Event β))
    (hsupplied : Machine.Along (step S) (fun _ d ev => Ipv4Supplied S d ev) [] d events) :
    (∀ i key c packet, .write i key c packet ∈ (runLoop S d events).2 →
      ipVersion packet = 4 ∧ d.table.Allows i (ipAt packet 12)) ∧
    ∀ key nonce packet, .encrypt key nonce packet ∈ (runLoop S d events).2 →
      ipVersion packet = 4 ∧ ∃ pre read post, events = pre ++ .tun read :: post ∧ packet = read.take 2048 ∧
        ∃ i, key = ((runLoop S d pre).1.table.peers.get i).currentSession.sendKey ∧
          d.table.Allows i (ipAt packet 16) := by
  have hconfig : ∀ {pre : List (Event β)} {i : ℕ} {ip : BitVec 32}, (runLoop S d pre).1.table.Allows i ip →
      d.table.Allows i ip := fun h => PeerTable.allows_of_config (config_run S d _).symm h
  rw [Machine.along_iff] at hsupplied
  constructor
  · intro i key c packet hw
    obtain ⟨pre, r, post, parsed, i', slot, plain, heq, hacc, hdeliver, rfl, -, -, rfl⟩ := accepted_of_write hw
    refine ⟨?_, hconfig (PeerTable.allows_get hdeliver.allowed)⟩
    exact hsupplied pre _ post heq _ hacc.mem_recvKeys parsed hacc.parse plain hacc.opens hdeliver.length
  · intro key nonce packet he
    obtain ⟨pre, ev, post, heq, he⟩ := (Machine.mem_run _).mp he
    obtain ⟨read, i, rfl, rfl, hroute, hkey⟩ := (step_cases S _ ev).routed_of_encrypt he
    refine ⟨?_, pre, read, post, heq, rfl, i, hkey, ?_⟩
    · rw [ipVersion_take]
      exact hsupplied pre _ post heq (hroute.length.trans (List.length_take_le' _ _))
    · exact hconfig (PeerTable.allows_get (peerFindByDestIp_eq_some.mp hroute.find).1)

/-- The toy peer, if it may use 10.0.0.2 only. -/
def toyNarrowPeer : Peer (BitVec 8) :=
  { toyPeer with allowedIps := [⟨0x0a000002, 0xffffffff, 32⟩], allowedIps_le := by decide }

/-- The toy daemon, with that peer. -/
def toyNarrow : Daemon (BitVec 8) := { toyDaemon with table := ⟨[toyNarrowPeer], by decide, 1⟩ }

/-- The header of an IPv4 packet between 10.0.0.2 and 10.0.0.2. -/
def toyIpv4 : List (BitVec 8) := [0x45, 0, 0, 20, 0, 0, 0, 0, 64, 17, 0, 0, 10, 0, 0, 2, 10, 0, 0, 2]

/-- The header of an IPv6 packet. Octets 12 to 15, and 16 to 19, of its source address are 10, 0, 0, 2. -/
def toyIpv6 : List (BitVec 8) :=
  [0x60, 0, 0, 0, 0, 0, 59, 64, 0x20, 0x01, 0x0d, 0xb8, 10, 0, 0, 2, 10, 0, 0, 2, 0, 0, 0, 1] ++ List.replicate 16 0xfe

/-- The peer sets up a session and sends a packet, which is then read from the TUN device as well. -/
def toyExchange (packet : List (BitVec 8)) : List (Event (BitVec 8)) :=
  [toyRecv (toyInitiation 7 11 1000) 13 500, toyRecv (toyData 1 0 toySession.recvKey packet) 0 501, .tun packet]

/-- With an IPv4 packet, it is written and encrypted. -/
theorem ipv4_only_toy :
    .write 0 toySession.recvKey 0 toyIpv4 ∈ (runLoop toySodium toyNarrow (toyExchange toyIpv4)).2 ∧
    .encrypt toySession.sendKey (vpnCryptoFormatNonce 0) toyIpv4 ∈
      (runLoop toySodium toyNarrow (toyExchange toyIpv4)).2 ∧
    (∀ i key c packet, .write i key c packet ∈ (runLoop toySodium toyNarrow (toyExchange toyIpv4)).2 →
      ipVersion packet = 4 ∧ toyNarrow.table.Allows i (ipAt packet 12)) ∧
    ∀ key nonce packet, .encrypt key nonce packet ∈ (runLoop toySodium toyNarrow (toyExchange toyIpv4)).2 →
      ipVersion packet = 4 ∧ ∃ pre read post, toyExchange toyIpv4 = pre ++ .tun read :: post ∧
        packet = read.take 2048 ∧
        ∃ i, key = ((runLoop toySodium toyNarrow pre).1.table.peers.get i).currentSession.sendKey ∧
          toyNarrow.table.Allows i (ipAt packet 16) :=
  ⟨by decide +kernel, by decide +kernel, ipv4_only toySodium toyNarrow (toyExchange toyIpv4) (by decide +kernel)⟩

/-- **An IPv6 packet is delivered, and encrypted**: the one the peer sent is written to the TUN device, and the
same octets read from there are sealed for it, though no octets of the packet are an IPv4 address. -/
theorem ipv6_routed :
    ipVersion toyIpv6 = 6 ∧
    .write 0 toySession.recvKey 0 toyIpv6 ∈ (runLoop toySodium toyNarrow (toyExchange toyIpv6)).2 ∧
    .encrypt toySession.sendKey (vpnCryptoFormatNonce 0) toyIpv6 ∈
      (runLoop toySodium toyNarrow (toyExchange toyIpv6)).2 :=
  ⟨by decide, by decide +kernel, by decide +kernel⟩

end VpnTunnel
