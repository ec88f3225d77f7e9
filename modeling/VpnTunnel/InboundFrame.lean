import VpnTunnel.SymbolicSodium

/-!
# What a datagram changes

An adversary can send the daemon anything. This module says what a datagram can do to its state, as a
frame: a datagram that is refused changes nothing and has no effect; one that is accepted changes what
it has to, in one peer, and nothing else.

## The argument

The reasons a datagram is refused for are spelled out (`Refused`), one for each early exit of the two
inbound paths; together with the two ways of being accepted they are exhaustive (`refused_or_accepted`).
An accepted initiation is the one case with a hidden exit: `next_local_index` is taken before
`handshake_create_response`, which could still fail. It cannot, since it only computes exchanges with
public keys that `handshake_consume_initiation` has already computed an exchange with.

## What is proved

* `refused_or_accepted`, `udpStep_of_refused` — a datagram is refused, and nothing happens, or accepted.
* `inbound_frame` — what each kind of datagram changes.
-/

namespace VpnTunnel

open Octets

variable {β : Type} [Octet β] [DecidableEq β]

/-- Why a datagram is refused. -/
inductive Refused (S : Sodium β) (d : Daemon β) (buf : List β) : Prop
  /-- Its type is unknown. -/
  | unknownType (htype : packetPeekType buf = .invalid)
  /-- It is a handshake response. -/
  | response (htype : packetPeekType buf = .handshakeResp)
  /-- It is data or a keepalive, and does not parse. -/
  | malformed {e : Errno} (htype : packetPeekType buf = .data ∨ packetPeekType buf = .keepalive)
      (hparse : packetParseData buf = .error e)
  /-- No session has the index. -/
  | unknownIndex {parsed : PacketData β} (htype : packetPeekType buf = .data ∨ packetPeekType buf = .keepalive)
      (hparse : packetParseData buf = .ok parsed) (hfind : peerFindByIndex d.table parsed.receiverIndex = none)
  /-- The replay filter of the session refuses the counter. -/
  | replayed {parsed : PacketData β} {i : Fin d.table.peers.length} {slot : Slot}
      (htype : packetPeekType buf = .data ∨ packetPeekType buf = .keepalive)
      (hparse : packetParseData buf = .ok parsed)
      (hfind : peerFindByIndex d.table parsed.receiverIndex = some (i, slot))
      (hreplay : replayCheck ((d.table.peers.get i).session slot).replayFilter parsed.counter = false)
  /-- The tag does not verify. -/
  | forged {parsed : PacketData β} {i : Fin d.table.peers.length} {slot : Slot} {e : Errno}
      (htype : packetPeekType buf = .data ∨ packetPeekType buf = .keepalive)
      (hparse : packetParseData buf = .ok parsed)
      (hfind : peerFindByIndex d.table parsed.receiverIndex = some (i, slot))
      (hopen : vpnCryptoAeadDecrypt S (ofList parsed.ciphertext) parsed.authTag [] parsed.counter
        ((d.table.peers.get i).session slot).recvKey = .error e)
  /-- It is an initiation that is not consumed. -/
  | initiation {e : Errno} (htype : packetPeekType buf = .handshakeInit)
      (hconsume : handshakeConsumeInitiation S buf d.staticPriv d.staticPub d.table = .error e)

variable {S : Sodium β} {d : Daemon β} {buf : List β}

/-- A datagram that is refused is not accepted as data. -/
theorem Refused.not_data (h : Refused S d buf) {parsed : PacketData β} {i : Fin d.table.peers.length} {slot : Slot}
    {plain : Bytes β parsed.ciphertext.length} : ¬ DataAccepted S d buf parsed i slot plain := by
  intro hdata
  have hcontra {t : PacketType} (ht : packetPeekType buf = t) (hne : t ≠ .data ∧ t ≠ .keepalive) : False := by
    rcases hdata.type with htype | htype
    · exact hne.1 (ht.symm.trans htype)
    · exact hne.2 (ht.symm.trans htype)
  cases h with
  | unknownType htype => exact hcontra htype (by decide)
  | response htype => exact hcontra htype (by decide)
  | malformed _ hparse => cases hparse.symm.trans hdata.parse
  | unknownIndex _ hparse hfind =>
    cases hparse.symm.trans hdata.parse
    cases hfind.symm.trans hdata.find
  | replayed _ hparse hfind hreplay =>
    cases hparse.symm.trans hdata.parse
    cases hfind.symm.trans hdata.find
    cases hreplay.symm.trans hdata.fresh
  | forged _ hparse hfind hopen =>
    cases hparse.symm.trans hdata.parse
    cases hfind.symm.trans hdata.find
    cases hopen.symm.trans hdata.opens
  | initiation htype _ => exact hcontra htype (by decide)

/-- Nor as an initiation. -/
theorem Refused.not_initiation (h : Refused S d buf) {init : ConsumedInitiation d.table} :
    ¬ InitiationAccepted S d buf init := by
  intro hinit
  have hcontra {t : PacketType} (ht : packetPeekType buf = t) (hne : t ≠ .handshakeInit) : False :=
    hne (ht.symm.trans hinit.type)
  cases h with
  | unknownType htype => exact hcontra htype (by decide)
  | response htype => exact hcontra htype (by decide)
  | malformed htype _ => rcases htype with h | h <;> exact hcontra h (by decide)
  | unknownIndex htype _ _ => rcases htype with h | h <;> exact hcontra h (by decide)
  | replayed htype _ _ _ => rcases htype with h | h <;> exact hcontra h (by decide)
  | forged htype _ _ _ => rcases htype with h | h <;> exact hcontra h (by decide)
  | initiation _ hconsume => cases hconsume.symm.trans hinit.consume

/-- Every datagram is refused, or accepted as data, or accepted as an initiation. -/
theorem refused_or_accepted (S : Sodium β) (d : Daemon β) (buf : List β) :
    Refused S d buf ∨ (∃ parsed i slot plain, DataAccepted S d buf parsed i slot plain) ∨
      ∃ init, InitiationAccepted S d buf init := by
  have hdata (htype : packetPeekType buf = .data ∨ packetPeekType buf = .keepalive) :
      Refused S d buf ∨ ∃ parsed i slot plain, DataAccepted S d buf parsed i slot plain := by
    cases hparse : packetParseData buf with
    | error e => exact .inl (.malformed htype hparse)
    | ok parsed =>
      cases hfind : peerFindByIndex d.table parsed.receiverIndex with
      | none => exact .inl (.unknownIndex htype hparse hfind)
      | some found =>
        cases hreplay : replayCheck ((d.table.peers.get found.1).session found.2).replayFilter parsed.counter with
        | false => exact .inl (.replayed htype hparse hfind hreplay)
        | true =>
          cases hopen : vpnCryptoAeadDecrypt S (ofList parsed.ciphertext) parsed.authTag [] parsed.counter
              ((d.table.peers.get found.1).session found.2).recvKey with
          | error e => exact .inl (.forged htype hparse hfind hopen)
          | ok plain => exact .inr ⟨parsed, found.1, found.2, plain, htype, hparse, hfind, hreplay, hopen⟩
  cases htype : packetPeekType buf with
  | invalid => exact .inl (.unknownType htype)
  | handshakeResp => exact .inl (.response htype)
  | data => exact (hdata (.inl htype)).imp_right .inl
  | keepalive => exact (hdata (.inr htype)).imp_right .inl
  | handshakeInit =>
    cases hconsume : handshakeConsumeInitiation S buf d.staticPriv d.staticPub d.table with
    | error e => exact .inl (.initiation htype hconsume)
    | ok init => exact .inr (.inr ⟨init, htype, hconsume⟩)

variable {r : Recv β}

/-- **A datagram that is refused changes nothing and has no effect.** -/
theorem udpStep_of_refused (h : Refused S d (r.datagram.take 2048)) : udpStep S d r = (d, []) :=
  udpStep_of_not_accepted (fun _ _ _ _ => h.not_data) (fun _ => h.not_initiation)

/-- **Accepted data changes the replay filter of its session and the endpoint of its peer**, which is then
the source. -/
theorem DataAccepted.frame {parsed : PacketData β} {i : Fin d.table.peers.length} {slot : Slot}
    {plain : Bytes β parsed.ciphertext.length} (h : DataAccepted S d (r.datagram.take 2048) parsed i slot plain)
    (hsrc : r.src.addr.isInet = true) :
    ∃ ep, (udpStep S d r).1 = { d with table := (d.table.update i
        { (d.table.peers.get i).setSession slot { (d.table.peers.get i).session slot with
            replayFilter := replayUpdate ((d.table.peers.get i).session slot).replayFilter parsed.counter } with
          endpoint := ep }) } ∧
      endpointEqual ep r.src = true := by
  rw [udpStep_of_data h, Peer.received]
  have heq := endpointEqual_peerUpdateEndpoint ((d.table.peers.get i).setSession slot
    { (d.table.peers.get i).session slot with
      replayFilter := replayUpdate ((d.table.peers.get i).session slot).replayFilter parsed.counter }) hsrc
  rw [peerUpdateEndpoint_fst] at heq ⊢
  exact ⟨_, rfl, heq⟩

/-- **An accepted initiation changes the sessions, the endpoint and the handshake time of its peer**, and
takes an index; the session of the response is installed, the one before it is kept if it was
established, and the endpoint is the source. -/
theorem InitiationAccepted.frame (hdh : S.DhByPoint) {init : ConsumedInitiation d.table}
    (h : InitiationAccepted S d (r.datagram.take 2048) init) (hsrc : r.src.addr.isInet = true) :
    ∃ resp ep, d.respond S init r.ephemeral = .ok resp ∧ (udpStep S d r).1 = { d with table :=
        { d.table.update init.peer
            { d.table.peers.get init.peer with
              currentSession := d.newSession init resp r.now
              previousSession := if (d.table.peers.get init.peer).currentSession.state = .established then
                (d.table.peers.get init.peer).currentSession else (d.table.peers.get init.peer).previousSession
              endpoint := ep
              lastHandshakeTime := r.now' } with
          nextLocalIndex := d.table.nextLocalIndex + 1 } } ∧
      (d.newSession init resp r.now).state = .established ∧
      .install init.peer (d.newSession init resp r.now) ∈ (udpStep S d r).2 ∧ endpointEqual ep r.src = true := by
  obtain ⟨resp, hresp⟩ := h.respond_ok hdh r.ephemeral
  rw [udpStep_of_initiation h, hresp]
  dsimp only
  have heq := endpointEqual_peerUpdateEndpoint (peerInitSession (d.table.peers.get init.peer) d.table.nextLocalIndex
    init.parsed.senderIndex resp.sendKey resp.recvKey r.now r.now') hsrc
  rw [Daemon.rekeyed]
  rw [peerUpdateEndpoint_fst, peerInitSession_eq] at heq ⊢
  exact ⟨resp, _, rfl, rfl, rfl, List.mem_cons_of_mem _ (List.mem_cons_self ..), heq⟩

/-- **What a datagram changes**, from any IPv4 or IPv6 endpoint. Refused, nothing, and it has no effect.
Accepted as data, the replay filter of the session it belongs to and the endpoint of the peer.
Accepted as an initiation, the sessions, the endpoint and the handshake time of one peer and the next
index, and the session of the response is always installed. When it is accepted, the endpoint becomes
the source. There is no fourth case. -/
theorem inbound_frame (S : Sodium β) (hdh : S.DhByPoint) (d : Daemon β) (r : Recv β) (hsrc : r.src.addr.isInet = true) :
    (Refused S d (r.datagram.take 2048) → udpStep S d r = (d, [])) ∧
    (∀ parsed i slot plain, DataAccepted S d (r.datagram.take 2048) parsed i slot plain →
      ∃ ep, (udpStep S d r).1 = { d with table := (d.table.update i
          { (d.table.peers.get i).setSession slot { (d.table.peers.get i).session slot with
              replayFilter := replayUpdate ((d.table.peers.get i).session slot).replayFilter parsed.counter } with
            endpoint := ep }) } ∧
        endpointEqual ep r.src = true) ∧
    (∀ init, InitiationAccepted S d (r.datagram.take 2048) init →
      ∃ resp ep, d.respond S init r.ephemeral = .ok resp ∧ (udpStep S d r).1 = { d with table :=
          { d.table.update init.peer
              { d.table.peers.get init.peer with
                currentSession := d.newSession init resp r.now
                previousSession := if (d.table.peers.get init.peer).currentSession.state = .established then
                  (d.table.peers.get init.peer).currentSession else (d.table.peers.get init.peer).previousSession
                endpoint := ep
                lastHandshakeTime := r.now' } with
            nextLocalIndex := d.table.nextLocalIndex + 1 } } ∧
        (d.newSession init resp r.now).state = .established ∧
        .install init.peer (d.newSession init resp r.now) ∈ (udpStep S d r).2 ∧ endpointEqual ep r.src = true) ∧
    (Refused S d (r.datagram.take 2048) ∨
      (∃ parsed i slot plain, DataAccepted S d (r.datagram.take 2048) parsed i slot plain) ∨
      ∃ init, InitiationAccepted S d (r.datagram.take 2048) init) :=
  ⟨udpStep_of_refused, fun _ _ _ _ h => h.frame hsrc, fun _ h => h.frame hdh hsrc, refused_or_accepted S d _⟩

/-- In the symbolic library the initiation, from port 9 of 127.0.0.1, installs the session of the response. -/
theorem inbound_frame_symbolic :
    .install 0 (symbolicDaemon.newSession (symbolicConsumed 7) symbolicResponder.response 500) ∈
    (udpStep symbolicSodium symbolicDaemon
      ⟨⟨.inet 9 0x7f000001, 16⟩, (symbolicInitiation 7).wire, privateKey 4, 500, 500⟩).2 := by
  obtain ⟨-, -, hframe, -⟩ := inbound_frame symbolicSodium symbolicSodium_dhByPoint symbolicDaemon
    ⟨⟨.inet 9 0x7f000001, 16⟩, (symbolicInitiation 7).wire, privateKey 4, 500, 500⟩ rfl
  obtain ⟨resp, -, hresp, -, -, hinstall, -⟩ := hframe (symbolicConsumed 7)
    ⟨by rw [take_symbolicInitiation]; exact packetPeekType_initiation _,
      by rw [take_symbolicInitiation]; exact symbolicInitiation_accepted 7⟩
  obtain rfl := Except.ok.inj (hresp.symm.trans symbolicResponder.created)
  exact hinstall

end VpnTunnel
