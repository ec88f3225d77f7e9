import VpnTunnel.Handshake
import VpnTunnel.Lib.Machine

/-!
# The daemon

This module models the event loop of `src/main.c`, with `tun_write` of `src/tun.c`:

    1. transport_recv()         1. tun_read() (Cleartext IP)
    2. packet_peek_type()       2. Extract Dest IP (offset 16)
    3. Parse & Lookup Peer      3. Cryptographic Routing lookup
    4. Replay Check             4. Increment sending counter
    5. AEAD Decrypt             5. AEAD Encrypt payload
    6. Replay Update            6. Serialize DATA Wire Packet
    7. Endpoint Roam Update     7. transport_send() via UDP
    8. AllowedIPs Check
    9. tun_write() to OS

## The model

The daemon is a machine. An input is a datagram that arrives, with the endpoint it comes from, or a
packet read from the TUN device; an iteration of the loop in which both descriptors are readable is
two inputs, the datagram first. A datagram comes with what the source would draw or read while it
handles it: the ephemeral key pair of a response and two readings of the clock.

A step puts out what it does to the outside: `transport_send`, the write to the TUN device, and the
calls whose arguments the results speak about (`Effect`). Neither the results of the two system calls
nor logging have a bearing on the state. A pointer `session` into a peer is a `Slot`.

## What is proved

* `step_cases` — what a step can do: nothing, accept a data packet, accept an initiation, or seal a
  packet read from the TUN device, and when it does which.
-/

namespace VpnTunnel

open Octets

/-- The TUN device, `tun_device_t`. -/
structure TunDevice where
  /-- The device could be opened, `fd >= 0`. -/
  fdOpen : Bool
  /-- The longest packet it takes. -/
  mtu : ℕ
  deriving DecidableEq, Repr

/-- The state of the daemon: the locals of `main`. -/
@[ext]
structure Daemon (β : Type) where
  /-- The host's static private key, `static_priv`. -/
  staticPriv : Bytes β 32
  /-- The host's static public key, `static_pub`. -/
  staticPub : Bytes β 32
  /-- The peer table. -/
  table : PeerTable β
  /-- The TUN device. -/
  tun : TunDevice
  deriving DecidableEq

/-- A datagram that arrives. -/
structure Recv (β : Type) where
  /-- Where it comes from, `src_ep`. -/
  src : Endpoint
  /-- Its octets. -/
  datagram : List β
  /-- The ephemeral private key drawn, if a response is made. -/
  ephemeral : Bytes β 32
  /-- The clock when a session is installed. -/
  now : BitVec 64
  /-- The clock when the handshake time is stored. -/
  now' : BitVec 64

/-- What the loop reacts to. -/
inductive Event (β : Type) where
  /-- A datagram on the UDP socket. -/
  | udp (r : Recv β)
  /-- A packet from the TUN device. -/
  | tun (packet : List β)

/-- What the loop does. Peers are named by their place in the table. -/
inductive Effect (β : Type) where
  /-- `handshake_consume_initiation` has returned 0 for a peer, on a datagram with this timestamp. -/
  | accept (peer : ℕ) (timestamp : Bytes β 12) (datagram : List β)
  /-- `peer_init_session` has installed a session for a peer. -/
  | install (peer : ℕ) (session : Session β)
  /-- `vpn_crypto_aead_encrypt` was called on the outbound path, with this key, nonce and plaintext. -/
  | encrypt (key : Bytes β 32) (nonce : Bytes β 12) (plaintext : List β)
  /-- `transport_send` was called. -/
  | send (dest : Endpoint) (datagram : List β)
  /-- A packet was written to the TUN device, received from a peer under a `recv_key` and a counter. -/
  | write (peer : ℕ) (recvKey : Bytes β 32) (counter : BitVec 64) (packet : List β)
  deriving DecidableEq

variable {β : Type}

/-- The IPv4 address at an offset of a packet, most significant octet first. The loop only reads it in
packets of at least 20 octets. -/
def ipAt [Octet β] (buf : List β) (off : ℕ) : BitVec 32 :=
  match buf.drop off with
  | a :: b :: c :: d :: _ =>
    (toByte a).setWidth 32 <<< 24 ||| (toByte b).setWidth 32 <<< 16 ||| (toByte c).setWidth 32 <<< 8 |||
      (toByte d).setWidth 32
  | _ => 0

/-- The packet handed to `write`, `tun_write`. -/
def tunWrite (tun : TunDevice) (buf : List β) : Except Errno (List β) :=
  if !tun.fdOpen || buf.length == 0 then .error .einval
  else if buf.length > tun.mtu then .error .emsgsize
  else .ok buf

variable [Octet β]

/-- The end of the inbound path: an authenticated packet goes to the TUN device when it is long enough
to have a source address and the peer may use that address. -/
def deliver (tun : TunDevice) (i : ℕ) (peer : Peer β) (recvKey : Bytes β 32) (counter : BitVec 64)
    (plain : List β) : List (Effect β) :=
  if 20 ≤ plain.length ∧ tun.fdOpen then
    if peerAllowsSourceIp peer (ipAt plain 12) then
      match tunWrite tun plain with
      | .ok packet => [.write i recvKey counter packet]
      | .error _ => []
    else []
  else []

variable (S : Sodium β)

/-- A handshake initiation (0x01) arrives. -/
def inboundInitiation [DecidableEq β] (d : Daemon β) (r : Recv β) (buf : List β) : Daemon β × List (Effect β) :=
  match handshakeConsumeInitiation S buf d.staticPriv d.staticPub d.table with
  | .error _ => (d, [])
  | .ok init =>
    let myLocalIdx := d.table.nextLocalIndex
    let table := { d.table with nextLocalIndex := d.table.nextLocalIndex + 1 }
    let peer := table.peers.get init.peer
    match handshakeCreateResponse S 92 init.parsed.unencryptedEphemeral peer.publicKey myLocalIdx
        init.parsed.senderIndex init.chainingKey init.hash r.ephemeral with
    | .error _ => ({ d with table := table }, [.accept init.peer init.timestamp buf])
    | .ok resp =>
      let peer := peerInitSession peer myLocalIdx init.parsed.senderIndex resp.sendKey resp.recvKey r.now r.now'
      let session := peer.currentSession
      let peer := (peerUpdateEndpoint peer r.src).1
      ({ d with table := table.update init.peer peer },
        [.accept init.peer init.timestamp buf, .install init.peer session, .send r.src resp.packet])

/-- Data (0x03) or a keepalive (0x04) arrives. -/
def inboundData (d : Daemon β) (r : Recv β) (buf : List β) : Daemon β × List (Effect β) :=
  match packetParseData buf with
  | .error _ => (d, [])
  | .ok parsed =>
    match peerFindByIndex d.table parsed.receiverIndex with
    | none => (d, [])
    | some (i, slot) =>
      let peer := d.table.peers.get i
      let session := peer.session slot
      if session.state = .established ∧ replayCheck session.replayFilter parsed.counter then
        match vpnCryptoAeadDecrypt S (ofList parsed.ciphertext) parsed.authTag [] parsed.counter session.recvKey with
        | .error _ => (d, [])
        | .ok plain =>
          let peer := peer.setSession slot
            { session with replayFilter := replayUpdate session.replayFilter parsed.counter }
          let peer := (peerUpdateEndpoint peer r.src).1
          ({ d with table := d.table.update i peer },
            deliver d.tun i peer session.recvKey parsed.counter plain.toList)
      else (d, [])

/-- A datagram arrives: it is cut to the 2048 octets of `net_buf`. -/
def udpStep [DecidableEq β] (d : Daemon β) (r : Recv β) : Daemon β × List (Effect β) :=
  let buf := r.datagram.take 2048
  match packetPeekType buf with
  | .handshakeInit => inboundInitiation S d r buf
  | .data | .keepalive => inboundData S d r buf
  | .handshakeResp | .invalid => (d, [])

/-- A packet is read from the TUN device: it is cut to the 2048 octets of `tun_buf`. -/
def tunStep (d : Daemon β) (packet : List β) : Daemon β × List (Effect β) :=
  let buf := packet.take 2048
  if d.tun.fdOpen ∧ 20 ≤ buf.length then
    match peerFindByDestIp d.table (ipAt buf 16) with
    | none => (d, [])
    | some i =>
      let peer := d.table.peers.get i
      let session := peer.currentSession
      if session.state = .established then
        let counter := session.sendingCounter
        let peer' := { peer with currentSession := { session with sendingCounter := counter + 1 } }
        let d' := { d with table := d.table.update i peer' }
        let sealed := vpnCryptoAeadEncrypt S (ofList buf) [] counter session.sendKey
        let encrypted := Effect.encrypt session.sendKey (vpnCryptoFormatNonce counter) buf
        match packetSerializeData 2048 session.peerIndex counter sealed.1.toList sealed.2 with
        | .ok pkt => (d', [encrypted, .send peer.endpoint pkt])
        | .error _ => (d', [encrypted])
      else (d, [])
  else (d, [])

/-- One step of the event loop. -/
def step [DecidableEq β] (d : Daemon β) : Event β → Daemon β × List (Effect β)
  | .udp r => udpStep S d r
  | .tun packet => tunStep S d packet

/-- A run of the event loop: the state reached and everything it did. -/
def runLoop [DecidableEq β] : Daemon β → List (Event β) → Daemon β × List (Effect β) := Machine.run (step S)

/-! ### What a step can do -/

/-- A data or keepalive datagram that is accepted: it parses, its index names a session in use, the
replay filter takes its counter and it decrypts to `plain`. -/
structure DataAccepted (d : Daemon β) (buf : List β) (parsed : PacketData β) (i : Fin d.table.peers.length)
    (slot : Slot) (plain : Bytes β parsed.ciphertext.length) : Prop where
  /-- The type says data or keepalive. -/
  type : packetPeekType buf = .data ∨ packetPeekType buf = .keepalive
  /-- It parses. -/
  parse : packetParseData buf = .ok parsed
  /-- The index is known. -/
  find : peerFindByIndex d.table parsed.receiverIndex = some (i, slot)
  /-- The counter is new. -/
  fresh : replayCheck ((d.table.peers.get i).session slot).replayFilter parsed.counter = true
  /-- The tag verifies. -/
  opens : vpnCryptoAeadDecrypt S (ofList parsed.ciphertext) parsed.authTag [] parsed.counter
    ((d.table.peers.get i).session slot).recvKey = .ok plain

/-- An initiation that is accepted. -/
structure InitiationAccepted [DecidableEq β] (d : Daemon β) (buf : List β) (init : ConsumedInitiation d.table) :
    Prop where
  /-- The type says initiation. -/
  type : packetPeekType buf = .handshakeInit
  /-- It is consumed. -/
  consume : handshakeConsumeInitiation S buf d.staticPriv d.staticPub d.table = .ok init

/-- A packet from the TUN device that is sealed: it is routed to a peer with a session in use. -/
structure Routed (d : Daemon β) (buf : List β) (i : Fin d.table.peers.length) : Prop where
  /-- The device is polled. -/
  fdOpen : d.tun.fdOpen = true
  /-- The packet has a destination address. -/
  length : 20 ≤ buf.length
  /-- The address is routed to the peer. -/
  find : peerFindByDestIp d.table (ipAt buf 16) = some i
  /-- The peer has a session. -/
  established : (d.table.peers.get i).currentSession.state = .established

instance (d : Daemon β) (buf : List β) (i : Fin d.table.peers.length) : Decidable (Routed d buf i) :=
  decidable_of_iff (d.tun.fdOpen = true ∧ 20 ≤ buf.length ∧ peerFindByDestIp d.table (ipAt buf 16) = some i ∧
      (d.table.peers.get i).currentSession.state = .established)
    ⟨fun ⟨h₁, h₂, h₃, h₄⟩ => ⟨h₁, h₂, h₃, h₄⟩, fun ⟨h₁, h₂, h₃, h₄⟩ => ⟨h₁, h₂, h₃, h₄⟩⟩

/-- The peer after a data packet from `src` was accepted in one of its sessions. -/
def Peer.received (p : Peer β) (slot : Slot) (counter : BitVec 64) (src : Endpoint) : Peer β :=
  (peerUpdateEndpoint (p.setSession slot
    { p.session slot with replayFilter := replayUpdate (p.session slot).replayFilter counter }) src).1

/-- The response to an accepted initiation. -/
def Daemon.respond [DecidableEq β] (d : Daemon β) (init : ConsumedInitiation d.table) (ephemeral : Bytes β 32) :
    Except Errno (CreatedResponse β) :=
  handshakeCreateResponse S 92 init.parsed.unencryptedEphemeral (d.table.peers.get init.peer).publicKey
    d.table.nextLocalIndex init.parsed.senderIndex init.chainingKey init.hash ephemeral

/-- The session installed for an accepted initiation. -/
def Daemon.newSession (d : Daemon β) (init : ConsumedInitiation d.table) (resp : CreatedResponse β) (now : BitVec 64) :
    Session β :=
  Session.fresh d.table.nextLocalIndex init.parsed.senderIndex resp.sendKey resp.recvKey now

/-- The peer after an initiation from `r.src` was accepted. -/
def Daemon.rekeyed (d : Daemon β) (init : ConsumedInitiation d.table) (resp : CreatedResponse β) (r : Recv β) :
    Peer β :=
  (peerUpdateEndpoint (peerInitSession (d.table.peers.get init.peer) d.table.nextLocalIndex init.parsed.senderIndex
    resp.sendKey resp.recvKey r.now r.now') r.src).1

/-- The next index is taken. -/
def PeerTable.takeIndex (t : PeerTable β) : PeerTable β := { t with nextLocalIndex := t.nextLocalIndex + 1 }

/-- The peer after a packet was sealed in its current session. -/
def Peer.counted (p : Peer β) : Peer β :=
  { p with currentSession := { p.currentSession with sendingCounter := p.currentSession.sendingCounter + 1 } }

/-- What is sent for a packet read from the TUN device. -/
def sendSealed (p : Peer β) (buf : List β) : List (Effect β) :=
  let sealed := vpnCryptoAeadEncrypt S (ofList buf) [] p.currentSession.sendingCounter p.currentSession.sendKey
  match packetSerializeData 2048 p.currentSession.peerIndex p.currentSession.sendingCounter sealed.1.toList
    sealed.2 with
  | .ok pkt => [.send p.endpoint pkt]
  | .error _ => []

/-- A peer's own ranges decide what is delivered. -/
theorem deliver_congr {p p' : Peer β} (h : p.allowedIps = p'.allowedIps) (tun : TunDevice) (i : ℕ)
    (key : Bytes β 32) (counter : BitVec 64) (plain : List β) :
    deliver tun i p key counter plain = deliver tun i p' key counter plain := by
  have hallow : peerAllowsSourceIp p (ipAt plain 12) = peerAllowsSourceIp p' (ipAt plain 12) := by
    rw [peerAllowsSourceIp, h, peerAllowsSourceIp]
  rw [deliver, hallow, deliver]

/-- Nothing is done with a sealed packet but sending it. -/
theorem eq_send_of_mem_sendSealed {S : Sodium β} {p : Peer β} {buf : List β} {effect : Effect β}
    (h : effect ∈ sendSealed S p buf) : ∃ dest pkt, effect = .send dest pkt := by
  unfold sendSealed at h
  dsimp only at h
  split at h
  · exact ⟨_, _, List.mem_singleton.mp h⟩
  · exact absurd h List.not_mem_nil

/-- Nothing but a datagram is sent for a packet: an observer of other effects sees nothing. -/
theorem filterMap_sendSealed {γ : Type} {f : Effect β → Option γ} (hf : ∀ dest pkt, f (.send dest pkt) = none)
    (p : Peer β) (buf : List β) : (sendSealed S p buf).filterMap f = [] := by
  unfold sendSealed
  dsimp only
  split
  · rw [List.filterMap_cons_none (hf _ _), List.filterMap_nil]
  · exact List.filterMap_nil

omit [Octet β] in
theorem Peer.allowedIps_received (p : Peer β) (slot : Slot) (counter : BitVec 64) (src : Endpoint) :
    (p.received slot counter src).allowedIps = p.allowedIps := by
  rw [Peer.received, peerUpdateEndpoint_fst]
  exact p.allowedIps_setSession slot _

section

variable {S} [DecidableEq β] {d : Daemon β} {r : Recv β}

/-- An accepted data packet marks its counter and moves the peer, and may be delivered. -/
theorem udpStep_of_data {parsed : PacketData β} {i : Fin d.table.peers.length} {slot : Slot}
    {plain : Bytes β parsed.ciphertext.length} (h : DataAccepted S d (r.datagram.take 2048) parsed i slot plain) :
    udpStep S d r = ({ d with table := d.table.update i ((d.table.peers.get i).received slot parsed.counter r.src) },
      deliver d.tun i (d.table.peers.get i) ((d.table.peers.get i).session slot).recvKey parsed.counter
        plain.toList) := by
  have hcond := And.intro (peerFindByIndex_eq_some h.find).1 h.fresh
  have hdata : udpStep S d r = inboundData S d r (r.datagram.take 2048) := by
    rcases h.type with htype | htype <;> simp only [udpStep, htype]
  rw [hdata]
  simp only [inboundData, h.parse, h.find]
  rw [if_pos hcond]
  simp only [h.opens]
  exact Prod.ext rfl (deliver_congr ((d.table.peers.get i).allowedIps_received slot parsed.counter r.src) _ _ _ _ _)

/-- An accepted initiation takes an index and, when the response can be made, installs a session. -/
theorem udpStep_of_initiation {init : ConsumedInitiation d.table}
    (h : InitiationAccepted S d (r.datagram.take 2048) init) :
    udpStep S d r = match d.respond S init r.ephemeral with
      | .error _ => ({ d with table := d.table.takeIndex }, [.accept init.peer init.timestamp (r.datagram.take 2048)])
      | .ok resp => ({ d with table := d.table.takeIndex.update init.peer (d.rekeyed init resp r) },
          [.accept init.peer init.timestamp (r.datagram.take 2048), .install init.peer (d.newSession init resp r.now),
            .send r.src resp.packet]) := by
  have hinit : udpStep S d r = inboundInitiation S d r (r.datagram.take 2048) := by
    simp only [udpStep, h.type]
  rw [hinit]
  simp only [inboundInitiation, h.consume]
  rfl

/-- Anything else is dropped. -/
theorem udpStep_of_not_accepted
    (hdata : ∀ parsed i slot plain, ¬ DataAccepted S d (r.datagram.take 2048) parsed i slot plain)
    (hinit : ∀ init, ¬ InitiationAccepted S d (r.datagram.take 2048) init) : udpStep S d r = (d, []) := by
  have hin : packetPeekType (r.datagram.take 2048) = .data ∨ packetPeekType (r.datagram.take 2048) = .keepalive →
      inboundData S d r (r.datagram.take 2048) = (d, []) := by
    intro htype
    unfold inboundData
    split
    · rfl
    · next parsed hparse =>
      split
      · rfl
      · next i slot hfind =>
        dsimp only
        split
        · next hok =>
          split
          · rfl
          · next plain hopen => exact absurd ⟨htype, hparse, hfind, hok.2, hopen⟩ (hdata parsed i slot plain)
        · rfl
  unfold udpStep
  dsimp only
  split
  · next htype =>
    unfold inboundInitiation
    split
    · rfl
    · next init hconsume => exact absurd ⟨htype, hconsume⟩ (hinit init)
  · next htype => exact hin (.inl htype)
  · next htype => exact hin (.inr htype)
  · rfl
  · rfl

omit [DecidableEq β] in
/-- A packet that is routed takes a counter, and is sent when it fits. -/
theorem tunStep_of_routed {packet : List β} {i : Fin d.table.peers.length} (h : Routed d (packet.take 2048) i) :
    tunStep S d packet = ({ d with table := d.table.update i (d.table.peers.get i).counted },
      .encrypt (d.table.peers.get i).currentSession.sendKey
        (vpnCryptoFormatNonce (d.table.peers.get i).currentSession.sendingCounter) (packet.take 2048) ::
      sendSealed S (d.table.peers.get i) (packet.take 2048)) := by
  unfold tunStep
  dsimp only
  rw [if_pos ⟨h.fdOpen, h.length⟩]
  simp only [h.find]
  rw [if_pos h.established, sendSealed]
  split <;> rfl

omit [DecidableEq β] in
/-- Any other packet is dropped. -/
theorem tunStep_of_not_routed {packet : List β} (h : ∀ i, ¬ Routed d (packet.take 2048) i) :
    tunStep S d packet = (d, []) := by
  unfold tunStep
  dsimp only
  split
  · next hopen =>
    split
    · rfl
    · next i hfind => exact if_neg fun hest => h i ⟨hopen.1, hopen.2, hfind, hest⟩
  · rfl

end

/-- What a step of the loop can do, and when: from state `d`, on an event, to a new state with some
effects. -/
inductive StepCase [DecidableEq β] (d : Daemon β) : Event β → Daemon β → List (Effect β) → Prop
  /-- Nothing: the event is dropped. -/
  | idle {ev : Event β} : StepCase d ev d []
  /-- A data or keepalive datagram is accepted. -/
  | data {r : Recv β} {parsed : PacketData β} {i : Fin d.table.peers.length} {slot : Slot}
      {plain : Bytes β parsed.ciphertext.length} (h : DataAccepted S d (r.datagram.take 2048) parsed i slot plain) :
      StepCase d (.udp r)
        { d with table := d.table.update i ((d.table.peers.get i).received slot parsed.counter r.src) }
        (deliver d.tun i (d.table.peers.get i) ((d.table.peers.get i).session slot).recvKey parsed.counter plain.toList)
  /-- An initiation is accepted, and a session is installed. -/
  | initiation {r : Recv β} {init : ConsumedInitiation d.table} {resp : CreatedResponse β}
      (h : InitiationAccepted S d (r.datagram.take 2048) init) (hresp : d.respond S init r.ephemeral = .ok resp) :
      StepCase d (.udp r) { d with table := d.table.takeIndex.update init.peer (d.rekeyed init resp r) }
        [.accept init.peer init.timestamp (r.datagram.take 2048), .install init.peer (d.newSession init resp r.now),
          .send r.src resp.packet]
  /-- An initiation is accepted, but no response can be made. -/
  | unanswered {r : Recv β} {init : ConsumedInitiation d.table} {e : Errno}
      (h : InitiationAccepted S d (r.datagram.take 2048) init) (hresp : d.respond S init r.ephemeral = .error e) :
      StepCase d (.udp r) { d with table := d.table.takeIndex }
        [.accept init.peer init.timestamp (r.datagram.take 2048)]
  /-- A packet from the TUN device is sealed. -/
  | outbound {packet : List β} {i : Fin d.table.peers.length} (h : Routed d (packet.take 2048) i) :
      StepCase d (.tun packet) { d with table := d.table.update i (d.table.peers.get i).counted }
        (.encrypt (d.table.peers.get i).currentSession.sendKey
          (vpnCryptoFormatNonce (d.table.peers.get i).currentSession.sendingCounter) (packet.take 2048) ::
        sendSealed S (d.table.peers.get i) (packet.take 2048))

/-- **What a step can do.** -/
theorem step_cases [DecidableEq β] (d : Daemon β) (ev : Event β) :
    StepCase S d ev (step S d ev).1 (step S d ev).2 := by
  cases ev with
  | udp r =>
    by_cases hdata : ∃ parsed i slot plain, DataAccepted S d (r.datagram.take 2048) parsed i slot plain
    · obtain ⟨parsed, i, slot, plain, h⟩ := hdata
      rw [step, udpStep_of_data h]
      exact .data h
    · by_cases hinit : ∃ init, InitiationAccepted S d (r.datagram.take 2048) init
      · obtain ⟨init, h⟩ := hinit
        rw [step, udpStep_of_initiation h]
        split
        · next e hresp => exact .unanswered h hresp
        · next resp hresp => exact .initiation h hresp
      · rw [step, udpStep_of_not_accepted (by simpa using hdata) (by simpa using hinit)]
        exact .idle
  | tun packet =>
    by_cases hroute : ∃ i, Routed d (packet.take 2048) i
    · obtain ⟨i, h⟩ := hroute
      rw [step, tunStep_of_routed h]
      exact .outbound h
    · rw [step, tunStep_of_not_routed (by simpa using hroute)]
      exact .idle

/-! ### What a step does to the sessions -/

section

variable {p : Peer β} {slot : Slot} {counter : BitVec 64} {src : Endpoint}

omit [Octet β]

theorem Peer.session_received : (p.received slot counter src).session slot =
    { p.session slot with replayFilter := replayUpdate (p.session slot).replayFilter counter } := by
  rw [Peer.received, peerUpdateEndpoint_fst]
  cases slot <;> rfl

theorem Peer.session_received_of_ne {slot' : Slot} (h : slot' ≠ slot) :
    (p.received slot counter src).session slot' = p.session slot' := by
  rw [Peer.received, peerUpdateEndpoint_fst]
  cases slot <;> cases slot' <;> first | rfl | exact absurd rfl h

theorem Peer.config_received : (p.received slot counter src).config = p.config := by
  rw [Peer.received, peerUpdateEndpoint_fst]
  cases slot <;> rfl

theorem Peer.lastHandshakeTime_received : (p.received slot counter src).lastHandshakeTime = p.lastHandshakeTime := by
  rw [Peer.received, peerUpdateEndpoint_fst]
  cases slot <;> rfl

theorem Peer.session_counted_of_ne (h : slot ≠ .current) : p.counted.session slot = p.session slot := by
  cases slot with
  | current => exact absurd rfl h
  | previous => rfl

end

section

variable {S} {d : Daemon β} {init : ConsumedInitiation d.table} {resp : CreatedResponse β} {r : Recv β}

theorem Daemon.config_rekeyed : (d.rekeyed init resp r).config = (d.table.peers.get init.peer).config := by
  rw [Daemon.rekeyed, peerUpdateEndpoint_fst, peerInitSession_eq]
  rfl

theorem Daemon.lastHandshakeTime_rekeyed : (d.rekeyed init resp r).lastHandshakeTime = r.now' := by
  rw [Daemon.rekeyed, peerUpdateEndpoint_fst, peerInitSession_eq]

/-- After an initiation the new session is the current one. -/
theorem Daemon.current_rekeyed : (d.rekeyed init resp r).currentSession = d.newSession init resp r.now := by
  rw [Daemon.rekeyed, peerUpdateEndpoint_fst, peerInitSession_eq]
  rfl

/-- The response to an accepted initiation can always be made: its two exchanges are with the public keys
the initiation was opened with. -/
theorem InitiationAccepted.respond_ok [DecidableEq β] (hdh : S.DhByPoint) {buf : List β}
    (h : InitiationAccepted S d buf init) (ephemeral : Bytes β 32) : ∃ resp, d.respond S init ephemeral = .ok resp := by
  have hsome : ∀ {a p z : Bytes β 32}, S.scalarmult a p = some z → ∃ z', S.scalarmult ephemeral p = some z' := by
    intro a p z hz
    refine Option.ne_none_iff_exists'.mp fun hnone => ?_
    rw [hdh ephemeral a p hnone] at hz
    cases hz
  obtain ⟨-, z₁, theirStatic, z₂, hopens, hfind, -⟩ := handshakeConsumeInitiation_eq_ok.mp h.consume
  obtain ⟨z₃, h₃⟩ := hsome hopens.dh₁
  obtain ⟨z₄, h₄⟩ := hsome hopens.dh₂
  rw [← (peerFindByPubkey_eq_some.mp hfind).1] at h₄
  exact ⟨⟨_, _, _⟩, handshakeCreateResponse_eq_ok.mpr ⟨le_rfl, z₃, z₄, h₃, h₄, rfl, rfl, rfl⟩⟩

/-- After an initiation the peer has the new session, and as the previous one a session it had. -/
theorem Daemon.session_rekeyed {slot : Slot} (h : ((d.rekeyed init resp r).session slot).state = .established) :
    (slot = .current ∧ (d.rekeyed init resp r).session slot = d.newSession init resp r.now) ∨
      (slot = .previous ∧
        ∃ slot', (d.rekeyed init resp r).session slot = (d.table.peers.get init.peer).session slot') := by
  have hsession : (d.rekeyed init resp r).session slot = (peerInitSession (d.table.peers.get init.peer)
      d.table.nextLocalIndex init.parsed.senderIndex resp.sendKey resp.recvKey r.now r.now').session slot := by
    rw [Daemon.rekeyed, peerUpdateEndpoint_fst]
    cases slot <;> rfl
  rw [hsession] at h ⊢
  exact established_peerInitSession _ _ _ _ _ _ _ h

/-- The sessions in use after an initiation: the new one, one the peer had, and those of the others. -/
theorem Daemon.established_rekeyed {j : ℕ} {slot : Slot} {s : Session β}
    (h : (d.table.takeIndex.update init.peer (d.rekeyed init resp r)).Established j slot s) :
    (j = init.peer ∧ slot = .current ∧ s = d.newSession init resp r.now) ∨
      (j = init.peer ∧ slot = .previous ∧ ∃ slot', d.table.Established j slot' s) ∨
      (j ≠ init.peer ∧ d.table.Established j slot s) := by
  rcases PeerTable.established_update.mp h with ⟨hj, hs, hest⟩ | ⟨hj, h⟩
  · subst hs
    rcases Daemon.session_rekeyed hest with ⟨hslot, hnew⟩ | ⟨hslot, slot', hold⟩
    · exact .inl ⟨hj, hslot, hnew⟩
    · rw [hold] at hest ⊢
      exact .inr (.inl ⟨hj, hslot, slot', hj ▸ PeerTable.established_get _ hest⟩)
  · exact .inr (.inr ⟨hj, h⟩)

end

/-- No step changes the configuration of the peers. -/
theorem StepCase.config [DecidableEq β] {S : Sodium β} {d d' : Daemon β} {ev : Event β} {effects : List (Effect β)}
    (h : StepCase S d ev d' effects) : d'.table.peers.map Peer.config = d.table.peers.map Peer.config := by
  cases h with
  | idle => rfl
  | data _ => exact PeerTable.map_update _ Peer.config_received
  | initiation _ _ => exact PeerTable.map_update (t := d.table.takeIndex) _ Daemon.config_rekeyed
  | unanswered _ _ => rfl
  | outbound _ => exact PeerTable.map_update _ rfl

/-- No step changes the keys of the host. -/
theorem StepCase.static [DecidableEq β] {S : Sodium β} {d d' : Daemon β} {ev : Event β} {effects : List (Effect β)}
    (h : StepCase S d ev d' effects) : d'.staticPriv = d.staticPriv ∧ d'.staticPub = d.staticPub := by
  cases h <;> exact ⟨rfl, rfl⟩

/-- The configuration of the peers is the same in every state of a run. -/
theorem config_run [DecidableEq β] (S : Sodium β) (d : Daemon β) (events : List (Event β)) :
    (runLoop S d events).1.table.peers.map Peer.config = d.table.peers.map Peer.config :=
  Machine.run_invariant_of_step (step S)
    (I := fun _ d' => d'.table.peers.map Peer.config = d.table.peers.map Peer.config)
    (fun _ d' ev hcfg => (step_cases S d' ev).config.trans hcfg) events rfl

/-! ### What is delivered -/

/-- A packet that goes to the TUN device: it has a source address the peer may use, and fits. -/
structure Deliverable (tun : TunDevice) (p : Peer β) (plain : List β) : Prop where
  /-- The device is open. -/
  fdOpen : tun.fdOpen = true
  /-- The packet has a source address. -/
  length : 20 ≤ plain.length
  /-- The device takes it. -/
  fits : plain.length ≤ tun.mtu
  /-- The peer may use the address. -/
  allowed : peerAllowsSourceIp p (ipAt plain 12) = true

section

variable {tun : TunDevice} {i : ℕ} {p : Peer β} {key : Bytes β 32} {c : BitVec 64} {plain : List β}

theorem deliver_of_deliverable (h : Deliverable tun p plain) :
    deliver tun i p key c plain = [.write i key c plain] := by
  have hne : plain ≠ [] := fun hnil => by simpa [hnil] using h.length
  simp [deliver, tunWrite, h.fdOpen, h.length, h.allowed, hne, Nat.not_lt.mpr h.fits]

theorem deliver_of_not_deliverable (h : ¬ Deliverable tun p plain) : deliver tun i p key c plain = [] := by
  unfold deliver tunWrite
  split
  · next hlen =>
    split
    · next hallow =>
      have hmtu : plain.length > tun.mtu := by
        by_contra hfit
        exact h ⟨hlen.2, hlen.1, Nat.le_of_not_lt hfit, hallow⟩
      by_cases hempty : (!tun.fdOpen || plain.length == 0) = true
      · rw [if_pos hempty]
      · rw [if_neg hempty, if_pos hmtu]
    · rfl
  · rfl

/-- Nothing but a write is done with a packet received. -/
theorem filterMap_deliver {γ : Type} {f : Effect β → Option γ}
    (hf : ∀ i key c packet, f (.write i key c packet) = none) :
    (deliver tun i p key c plain).filterMap f = [] := by
  by_cases h : Deliverable tun p plain
  · rw [deliver_of_deliverable h, List.filterMap_cons_none (hf _ _ _ _), List.filterMap_nil]
  · rw [deliver_of_not_deliverable h, List.filterMap_nil]

/-- At most one packet is delivered, the one that was authenticated. -/
theorem mem_deliver {effect : Effect β} :
    effect ∈ deliver tun i p key c plain ↔ effect = .write i key c plain ∧ Deliverable tun p plain := by
  by_cases h : Deliverable tun p plain
  · rw [deliver_of_deliverable h]
    simp [h]
  · rw [deliver_of_not_deliverable h]
    simp [h]

end

end VpnTunnel
