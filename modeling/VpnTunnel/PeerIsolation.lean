import VpnTunnel.Tunnel

/-!
# Peers are served independently

All peers share one event loop, one socket, one device and one table. This module says that they do not notice each
other: what the daemon does for a peer depends on the traffic of that peer alone, whatever the others send, and
however it is mixed.

## The model

The traffic of a peer is data with the index of one of its sessions, and packets of the device routed to its ranges
(`concerns`). A peer on its own (`peerStep`) knows its own record and how addresses are routed, and no other peer.
The handshakes of a peer are left out, since the index of the new session is taken from the one counter of the table,
and so tells how many handshakes there were; those of the other peers are not.

## The argument

The indices in use name the sessions, so that the table is searched for a peer's index and the peer itself with the
same result. A step on traffic of the peer is a step of the peer on its own (`Alone.step`), and any other step leaves
its record as it is.

## What is proved

* `Alone.run` — over a run of the daemon, the peer is what it would be on its own.
* `peers_isolated` — two runs with the same traffic of the peer end with the same record of it, and have done the same
  for its traffic.
-/

namespace VpnTunnel

open Octets

variable {β : Type}

/-! ### A peer on its own -/

section

variable [Octet β]

/-- The event is traffic of `p`, the `i`-th peer of the configuration of `d₀`. -/
def concerns (d₀ : Daemon β) (i : ℕ) (p : Peer β) : Event β → Bool
  | .udp r =>
    match packetParseData (r.datagram.take 2048) with
    | .error _ => false
    | .ok parsed => (p.findByIndex parsed.receiverIndex).isSome
  | .tun packet => decide (Carries d₀ i (packet.take 2048))

/-- The `i`-th peer receives data: it is checked, opened, marked and delivered. -/
def peerInbound (S : Sodium β) (tun : TunDevice) (i : ℕ) (p : Peer β) (r : Recv β) : Peer β × List (Effect β) :=
  match packetParseData (r.datagram.take 2048) with
  | .error _ => (p, [])
  | .ok parsed =>
    match p.findByIndex parsed.receiverIndex with
    | none => (p, [])
    | some slot =>
      if replayCheck (p.session slot).replayFilter parsed.counter then
        match vpnCryptoAeadDecrypt S (ofList parsed.ciphertext) parsed.authTag [] parsed.counter
            (p.session slot).recvKey with
        | .error _ => (p, [])
        | .ok plain => (p.received slot parsed.counter r.src,
            deliver tun i p (p.session slot).recvKey parsed.counter plain.toList)
      else (p, [])

/-- What the `i`-th peer does with its traffic: packets are sealed and sent. -/
def peerStep (S : Sodium β) (d₀ : Daemon β) (i : ℕ) (p : Peer β) : Event β → Peer β × List (Effect β)
  | .udp r => peerInbound S d₀.tun i p r
  | .tun packet =>
    if Carries d₀ i (packet.take 2048) ∧ p.currentSession.state = .established then
      (p.counted, .encrypt p.currentSession.sendKey (vpnCryptoFormatNonce p.currentSession.sendingCounter)
        (packet.take 2048) :: sendSealed S p (packet.take 2048))
    else (p, [])

variable {S : Sodium β} {d₀ : Daemon β} {i : ℕ} {p : Peer β} {r : Recv β} {parsed : PacketData β} {slot : Slot}

theorem concerns_udp (hparse : packetParseData (r.datagram.take 2048) = .ok parsed) :
    concerns d₀ i p (.udp r) = (p.findByIndex parsed.receiverIndex).isSome := by
  simp only [concerns, hparse]

theorem peerStep_of_opens (hparse : packetParseData (r.datagram.take 2048) = .ok parsed)
    (hfind : p.findByIndex parsed.receiverIndex = some slot)
    (hfresh : replayCheck (p.session slot).replayFilter parsed.counter = true)
    {plain : Bytes β parsed.ciphertext.length}
    (hopens : vpnCryptoAeadDecrypt S (ofList parsed.ciphertext) parsed.authTag [] parsed.counter
      (p.session slot).recvKey = .ok plain) :
    peerStep S d₀ i p (.udp r) = (p.received slot parsed.counter r.src,
      deliver d₀.tun i p (p.session slot).recvKey parsed.counter plain.toList) := by
  simp only [peerStep, peerInbound, hparse, hfind, hfresh, if_true, hopens]

theorem peerStep_of_not_opens (h : ∀ parsed slot plain, packetParseData (r.datagram.take 2048) = .ok parsed →
      p.findByIndex parsed.receiverIndex = some slot →
      replayCheck (p.session slot).replayFilter parsed.counter = true →
      vpnCryptoAeadDecrypt S (ofList parsed.ciphertext) parsed.authTag [] parsed.counter (p.session slot).recvKey ≠
        .ok plain) : peerStep S d₀ i p (.udp r) = (p, []) := by
  show peerInbound S d₀.tun i p r = (p, [])
  unfold peerInbound
  split
  · rfl
  · next parsed hparse =>
    split
    · rfl
    · next slot hfind =>
      split
      · next hfresh =>
        split
        · rfl
        · next plain hopens => exact absurd hopens (h parsed slot plain hparse hfind hfresh)
      · rfl

/-- A peer does nothing with what is not its traffic. -/
theorem peerStep_of_not_concerns {ev : Event β} (h : concerns d₀ i p ev = false) :
    peerStep S d₀ i p ev = (p, []) := by
  cases ev with
  | udp r =>
    refine peerStep_of_not_opens fun parsed slot plain hparse hfind => ?_
    rw [concerns_udp hparse, hfind] at h
    cases h
  | tun packet => exact if_neg fun hc => of_decide_eq_false h hc.1

omit [Octet β] in
/-- A peer is found by the indices of its sessions in use. -/
theorem Peer.isSome_findByIndex {idx : BitVec 32} : (p.findByIndex idx).isSome = true ↔
    ∃ slot, (p.session slot).state = .established ∧ (p.session slot).localIndex = idx := by
  constructor
  · intro h
    obtain ⟨slot, hslot⟩ := Option.isSome_iff_exists.mp h
    exact ⟨slot, Peer.findByIndex_eq_some hslot⟩
  · rintro ⟨slot, h⟩
    unfold Peer.findByIndex
    cases slot with
    | current =>
      rw [if_pos ⟨h.1, h.2⟩]
      rfl
    | previous =>
      split
      · rfl
      · rw [if_pos ⟨h.1, h.2⟩]
        rfl

omit [Octet β] in
/-- So the indices decide by which it is found. -/
theorem Peer.isSome_findByIndex_congr {q : Peer β} (h : ∀ slot, (q.session slot).state = (p.session slot).state ∧
      (q.session slot).localIndex = (p.session slot).localIndex) (idx : BitVec 32) :
    (q.findByIndex idx).isSome = (p.findByIndex idx).isSome := by
  refine Bool.eq_iff_iff.mpr ?_
  rw [Peer.isSome_findByIndex, Peer.isSome_findByIndex]
  simp only [fun slot => (h slot).1, fun slot => (h slot).2]

theorem concerns_congr {q : Peer β} (h : ∀ slot, (q.session slot).state = (p.session slot).state ∧
      (q.session slot).localIndex = (p.session slot).localIndex) : concerns d₀ i q = concerns d₀ i p := by
  funext ev
  cases ev with
  | udp r =>
    cases hparse : packetParseData (r.datagram.take 2048) with
    | error e => simp only [concerns, hparse]
    | ok parsed => rw [concerns_udp hparse, concerns_udp hparse, Peer.isSome_findByIndex_congr h]
  | tun packet => rfl

/-- Its traffic stays the same. -/
theorem concerns_peerStep (ev : Event β) : concerns d₀ i (peerStep S d₀ i p ev).1 = concerns d₀ i p := by
  cases ev with
  | udp r =>
    show concerns d₀ i (peerInbound S d₀.tun i p r).1 = _
    unfold peerInbound
    split
    · rfl
    · split
      · rfl
      · next slot _ =>
        split
        · split
          · rfl
          · exact concerns_congr fun slot' => p.index_received slot _ _ slot'
        · rfl
  | tun packet =>
    by_cases hc : Carries d₀ i (packet.take 2048) ∧ p.currentSession.state = .established
    · have hstep : peerStep S d₀ i p (.tun packet) = _ := if_pos hc
      rw [hstep]
      exact concerns_congr p.index_counted
    · have hstep : peerStep S d₀ i p (.tun packet) = _ := if_neg hc
      rw [hstep]

end

/-! ### The daemon and a peer -/

variable [Octet β] [DecidableEq β]

/-- The event does not rekey the `i`-th peer, and there is an index for the handshakes of others. -/
def Spares (S : Sodium β) (i : ℕ) (d : Daemon β) : Event β → Prop
  | .udp r => packetPeekType (r.datagram.take 2048) = .handshakeInit → ∀ init,
      handshakeConsumeInitiation S (r.datagram.take 2048) d.staticPriv d.staticPub d.table = .ok init →
        (init.peer : ℕ) ≠ i ∧ d.table.nextLocalIndex ≠ 0
  | .tun _ => True

instance (S : Sodium β) (i : ℕ) (d : Daemon β) : DecidablePred (Spares S i d)
  | .udp r =>
    have := Except.decidableForallOk
      (P := fun init : ConsumedInitiation d.table => (init.peer : ℕ) ≠ i ∧ d.table.nextLocalIndex ≠ 0)
      (handshakeConsumeInitiation S (r.datagram.take 2048) d.staticPriv d.staticPub d.table)
    inferInstanceAs (Decidable (_ → _))
  | .tun _ => isTrue trivial

/-- In state `d` of a run from `d₀`, the record of the `i`-th peer is `p`. -/
structure Alone (d₀ : Daemon β) (i : ℕ) (d : Daemon β) (p : Peer β) : Prop where
  /-- The indices name the sessions in use. -/
  inv : IndexInv d.table
  /-- The record. -/
  peer : d.table.peers[i]? = some p
  /-- The device is that of the start. -/
  tun : d.tun = d₀.tun
  /-- So is the configuration of the peers. -/
  config : d.table.peers.map Peer.config = d₀.table.peers.map Peer.config

variable {S : Sodium β} {d₀ d : Daemon β} {i : ℕ} {p : Peer β} {ev : Event β}

theorem Spares.indexRoom (h : Spares S i d ev) : IndexRoom S d ev := by
  cases ev with
  | udp r => exact fun htype init hconsume => (h htype init hconsume).2
  | tun packet => exact trivial

omit [DecidableEq β] in
theorem Alone.carries_iff (h : Alone d₀ i d p) {buf : List β} : Carries d i buf ↔ Carries d₀ i buf := by
  rw [Carries, Carries, h.tun, peerFindByDestIp_congr h.config]

omit [Octet β] [DecidableEq β] in
theorem Alone.get (h : Alone d₀ i d p) {j : Fin d.table.peers.length} (hj : (j : ℕ) = i) :
    d.table.peers.get j = p := by
  have hp := h.peer
  rw [← hj, List.getElem?_eq_getElem j.isLt] at hp
  exact Option.some.inj hp

omit [Octet β] [DecidableEq β] in
/-- The table is searched for an index of the peer with the same result as the peer. -/
theorem Alone.find (h : Alone d₀ i d p) {idx : BitVec 32} {slot : Slot} (hfind : p.findByIndex idx = some slot) :
    ∃ j : Fin d.table.peers.length, (j : ℕ) = i ∧ peerFindByIndex d.table idx = some (j, slot) := by
  obtain ⟨hest, hidx⟩ := Peer.findByIndex_eq_some hfind
  obtain ⟨j, hj, hlookup, -⟩ := h.inv.unique.find i slot (p.session slot) ⟨p, h.peer, rfl, hest⟩
  exact ⟨j, hj, hidx ▸ hlookup⟩

/-- Events that are not traffic of the peer leave it as it is. -/
theorem Alone.unchanged (h : Alone d₀ i d p) (hev : Spares S i d ev) (hno : concerns d₀ i p ev = false) :
    (step S d ev).1.table.peers[i]? = some p := by
  have hset : ∀ {t : PeerTable β} {j : Fin t.peers.length} {q : Peer β}, t.peers = d.table.peers → (j : ℕ) ≠ i →
      (t.update j q).peers[i]? = some p := by
    intro t j q ht hj
    rw [PeerTable.update, List.getElem?_set_ne hj, ht, h.peer]
  have hcase := step_cases S d ev
  generalize VpnTunnel.step S d ev = out at hcase ⊢
  obtain ⟨d', effects⟩ := out
  dsimp only at hcase ⊢
  cases hcase with
  | idle => exact h.peer
  | @data r parsed j slot plain hacc =>
    refine hset rfl fun hj => ?_
    have hfound : (p.findByIndex parsed.receiverIndex).isSome = true := by
      refine Peer.isSome_findByIndex.mpr ⟨slot, ?_⟩
      rw [← h.get hj]
      exact peerFindByIndex_eq_some hacc.find
    rw [concerns_udp hacc.parse, hfound] at hno
    cases hno
  | @initiation r init resp hacc hresp => exact hset rfl (hev hacc.type init hacc.consume).1
  | unanswered hacc hresp => exact h.peer
  | @outbound packet j hroute =>
    refine hset rfl fun hj => of_decide_eq_false hno (h.carries_iff.mp ⟨hroute.fdOpen, hroute.length, ?_⟩)
    rw [hroute.find, Option.map_some, hj]

/-- Traffic of the peer is served as it would serve it. -/
theorem Alone.served (h : Alone d₀ i d p) (hyes : concerns d₀ i p ev = true) :
    (step S d ev).2 = (peerStep S d₀ i p ev).2 ∧
      (step S d ev).1.table.peers[i]? = some (peerStep S d₀ i p ev).1 := by
  have hset : ∀ {j : Fin d.table.peers.length} {q : Peer β}, (j : ℕ) = i →
      (d.table.update j q).peers[i]? = some q := by
    intro j q hj
    rw [PeerTable.update, ← hj, List.getElem?_set_self j.isLt]
  cases ev with
  | udp r =>
    cases hparse : packetParseData (r.datagram.take 2048) with
    | error e =>
      simp only [concerns, hparse] at hyes
      cases hyes
    | ok parsed =>
      rw [concerns_udp hparse] at hyes
      obtain ⟨slot, hslot⟩ := Option.isSome_iff_exists.mp hyes
      obtain ⟨j, hj, hfind⟩ := h.find hslot
      have hget := h.get hj
      by_cases hacc : ∃ plain, DataAccepted S d (r.datagram.take 2048) parsed j slot plain
      · obtain ⟨plain, hacc⟩ := hacc
        have hstep : VpnTunnel.step S d (.udp r) = _ := udpStep_of_data hacc
        have hpeer : peerStep S d₀ i p (.udp r) = _ :=
          peerStep_of_opens hparse hslot (hget ▸ hacc.fresh) (hget ▸ hacc.opens)
        rw [hstep, hpeer, hget, h.tun, hj]
        exact ⟨rfl, hset hj⟩
      · have hstep : VpnTunnel.step S d (.udp r) = (d, []) := by
          refine udpStep_of_not_accepted (fun parsed' k slot' plain hacc' => hacc ?_) fun init hinit => ?_
          · cases hparse.symm.trans hacc'.parse
            cases hfind.symm.trans hacc'.find
            exact ⟨plain, hacc'⟩
          · rcases packetPeekType_of_packetParseData hparse with htype | htype <;> cases htype.symm.trans hinit.type
        have hpeer : peerStep S d₀ i p (.udp r) = (p, []) := by
          refine peerStep_of_not_opens fun parsed' slot' plain hparse' hslot' hfresh hopens => hacc ?_
          cases hparse.symm.trans hparse'
          cases hslot.symm.trans hslot'
          exact ⟨plain, packetPeekType_of_packetParseData hparse, hparse, hfind, hget ▸ hfresh, hget ▸ hopens⟩
        rw [hstep, hpeer]
        exact ⟨rfl, h.peer⟩
  | tun packet =>
    have hcarries : Carries d i (packet.take 2048) := h.carries_iff.mpr (of_decide_eq_true hyes)
    obtain ⟨hopen, hlen, hmap⟩ := hcarries
    obtain ⟨j, hfind, hj⟩ := Option.map_eq_some_iff.mp hmap
    have hget := h.get hj
    by_cases hest : p.currentSession.state = .established
    · have hroute : Routed d (packet.take 2048) j := ⟨hopen, hlen, hfind, hget ▸ hest⟩
      have hstep : VpnTunnel.step S d (.tun packet) = _ := tunStep_of_routed hroute
      have hpeer : peerStep S d₀ i p (.tun packet) = _ := if_pos ⟨of_decide_eq_true hyes, hest⟩
      rw [hstep, hpeer, hget]
      exact ⟨rfl, hset hj⟩
    · have hstep : VpnTunnel.step S d (.tun packet) = (d, []) := by
        refine tunStep_of_not_routed fun k hroute => hest ?_
        cases hfind.symm.trans hroute.find
        exact hget ▸ hroute.established
      have hpeer : peerStep S d₀ i p (.tun packet) = (p, []) := if_neg fun hc => hest hc.2
      rw [hstep, hpeer]
      exact ⟨rfl, h.peer⟩

/-- **A step of the daemon is a step of the peer on its own**, as far as it concerns the peer. -/
theorem Alone.step (h : Alone d₀ i d p) (hev : Spares S i d ev) :
    (Machine.restrict (step S) (concerns d₀ i p) d ev).2 = (peerStep S d₀ i p ev).2 ∧
      Alone d₀ i (VpnTunnel.step S d ev).1 (peerStep S d₀ i p ev).1 := by
  have hcase := step_cases S d ev
  have hnext : ∀ {q : Peer β}, (VpnTunnel.step S d ev).1.table.peers[i]? = some q →
      Alone d₀ i (VpnTunnel.step S d ev).1 q :=
    fun hq => ⟨indexInv_step hcase hev.indexRoom h.inv, hq, hcase.tun.trans h.tun, hcase.config.trans h.config⟩
  cases hc : concerns d₀ i p ev with
  | true =>
    obtain ⟨heffects, hpeer⟩ := h.served (S := S) hc
    rw [Machine.restrict, if_pos hc]
    exact ⟨heffects, hnext hpeer⟩
  | false =>
    rw [Machine.restrict, if_neg (by rw [hc]; exact Bool.false_ne_true), peerStep_of_not_concerns hc]
    exact ⟨rfl, hnext (h.unchanged hev hc)⟩

/-- So is a run. -/
theorem Alone.run (h : Alone d₀ i d p) {events : List (Event β)}
    (hrun : Machine.Along (VpnTunnel.step S) (fun _ d ev => Spares S i d ev) [] d events) :
    Machine.outputs (Machine.restrict (VpnTunnel.step S) (concerns d₀ i p)) d events =
        Machine.outputs (peerStep S d₀ i) p events ∧
      Alone d₀ i (runLoop S d events).1 (Machine.run (peerStep S d₀ i) p events).1 := by
  have hguard : Machine.Along (Machine.restrict (VpnTunnel.step S) (concerns d₀ i p))
      (fun _ d ev => Spares S i d ev) [] d events :=
    Machine.along_restrict _ hrun
  have hsim := Machine.simulates_along (Machine.restrict (VpnTunnel.step S) (concerns d₀ i p))
    (R := fun _ d q => Alone d₀ i d q ∧ concerns d₀ i q = concerns d₀ i p) (N := events.length)
    (fun _ _ d q ev _ hev hd => by
      obtain ⟨hout, hnext⟩ := hd.1.step hev
      rw [hd.2] at hout
      exact ⟨hout, hnext, (concerns_peerStep ev).trans hd.2⟩)
    (Nat.le_of_eq (Nat.zero_add _)) hguard ⟨h, rfl⟩
  rw [Machine.fst_run_restrict] at hsim
  exact ⟨hsim.1, hsim.2.1⟩

/-- **Peers do not notice each other.** Two runs of the daemon, in which a peer has the same traffic and no handshake,
end with the same record of the peer and have done the same for its traffic, whatever else there was. -/
theorem peers_isolated (S : Sodium β) (d₀ : Daemon β) (hstart : d₀.table.NoSessions) (before : List (Event β))
    (hbefore : Machine.Along (step S) (fun _ d ev => IndexRoom S d ev) [] d₀ before) (d : Daemon β)
    (hd : d = (runLoop S d₀ before).1) (i : ℕ) (p : Peer β) (hp : d.table.peers[i]? = some p)
    (events events' : List (Event β))
    (hrun : Machine.Along (step S) (fun _ d ev => Spares S i d ev) [] d events)
    (hrun' : Machine.Along (step S) (fun _ d ev => Spares S i d ev) [] d events')
    (hsame : events.filter (concerns d i p) = events'.filter (concerns d i p)) :
    (runLoop S d events).1.table.peers[i]? = (runLoop S d events').1.table.peers[i]? ∧
      (Machine.run (Machine.restrict (step S) (concerns d i p)) d events).2 =
        (Machine.run (Machine.restrict (step S) (concerns d i p)) d events').2 := by
  have hinv : IndexInv d.table := hd ▸ indexInv_run (indexInv_start hstart) hbefore
  have halone : Alone d i d p := ⟨hinv, hp, rfl, rfl⟩
  obtain ⟨hout, hend⟩ := halone.run hrun
  obtain ⟨hout', hend'⟩ := halone.run hrun'
  -- on its own, the peer does nothing with what is not its traffic
  have hfilter : ∀ events, Machine.run (peerStep S d i) p (events.filter (concerns d i p)) =
      Machine.run (peerStep S d i) p events :=
    Machine.run_filter (peerStep S d i) (I := fun q => concerns d i q = concerns d i p)
      (fun q ev hq => (concerns_peerStep ev).trans hq)
      (fun q ev hq hno => peerStep_of_not_concerns (by rw [hq]; exact hno)) rfl
  have hpeer : Machine.run (peerStep S d i) p events = Machine.run (peerStep S d i) p events' := by
    rw [← hfilter events, hsame, hfilter]
  refine ⟨?_, ?_⟩
  · rw [hend.peer, hend'.peer, hpeer]
  · rw [← Machine.flatten_outputs, ← Machine.flatten_outputs, hout, hout', Machine.flatten_outputs,
      Machine.flatten_outputs, hpeer]

/-- The private key of another peer. -/
def toyOtherPriv : Bytes (BitVec 8) 32 := List.Vector.replicate 32 7

theorem length_allowedIps_other_le : [Cidr.mk 0 0 0].length ≤ 64 := Nat.le_of_ble_eq_true rfl

/-- A second peer of the toy daemon. -/
def toyOther : Peer (BitVec 8) :=
  { publicKey := toySodium.scalarmultBase toyOtherPriv
    endpoint := Endpoint.unset
    allowedIps := [⟨0, 0, 0⟩]
    allowedIps_le := length_allowedIps_other_le
    currentSession := Session.zero
    previousSession := Session.zero
    lastHandshakeTime := 0 }

/-- The toy daemon with two peers. -/
def toyShared : Daemon (BitVec 8) := { toyDaemon with table := ⟨[toyPeer, toyOther], by decide, 1⟩ }

/-- It, after an initiation of the first. -/
def toySharing : Daemon (BitVec 8) := (runLoop toySodium toyShared [toyRecv (toyInitiation 7 11 1000) 13 500]).1

/-- An initiation of the second. -/
def toyOtherInitiation : List (BitVec 8) :=
  match handshakeCreateInitiation toySodium 148 toyOtherPriv (toySodium.scalarmultBase toyOtherPriv)
      (toySodium.scalarmultBase toyResponderPriv) 9 (List.Vector.replicate 32 19) 2000 0 with
  | .ok (packet, _) => packet
  | .error _ => []

/-- A handshake of the second peer, between a datagram and a packet of the first one. -/
def toyMixed : List (Event (BitVec 8)) :=
  [toyInFlight 0, toyRecv toyOtherInitiation 23 600, .tun (List.replicate 20 1)]

theorem noSessions_toyShared : toyShared.table.NoSessions :=
  PeerTable.noSessions_of_forall (by decide)

theorem toySharing_pos : 0 < toySharing.table.peers.length := by decide +kernel

/-- The first peer. -/
def toyFirst : Peer (BitVec 8) := toySharing.table.peers.get ⟨0, toySharing_pos⟩

/-- In a run of the toy daemon, the second peer gets an index and a session, and that makes no difference for what is
written and sent for the first one. -/
theorem peers_isolated_toy : (runLoop toySodium toySharing toyMixed).1.table.nextLocalIndex = 3 ∧
    (runLoop toySodium toySharing toyMixed).1.table.peers[0]? =
        (runLoop toySodium toySharing (toyMixed.eraseIdx 1)).1.table.peers[0]? ∧
      (Machine.run (Machine.restrict (step toySodium) (concerns toySharing 0 toyFirst)) toySharing toyMixed).2 =
        (Machine.run (Machine.restrict (step toySodium) (concerns toySharing 0 toyFirst)) toySharing
          (toyMixed.eraseIdx 1)).2 := by
  have hfirst : concerns toySharing 0 toyFirst (toyInFlight 0) = true ∧
      ¬ concerns toySharing 0 toyFirst (toyRecv toyOtherInitiation 23 600) = true := by
    decide +kernel
  have hsame : toyMixed.filter (concerns toySharing 0 toyFirst) =
      (toyMixed.eraseIdx 1).filter (concerns toySharing 0 toyFirst) := by
    have herase : toyMixed.eraseIdx 1 = [toyInFlight 0, .tun (List.replicate 20 1)] := rfl
    rw [herase, toyMixed, List.filter_cons_of_pos hfirst.1, List.filter_cons_of_neg hfirst.2,
      List.filter_cons_of_pos hfirst.1]
  exact ⟨by decide +kernel, peers_isolated toySodium toyShared noSessions_toyShared
    [toyRecv (toyInitiation 7 11 1000) 13 500] (by decide +kernel) toySharing rfl 0 toyFirst
    (List.getElem?_eq_getElem toySharing_pos) toyMixed (toyMixed.eraseIdx 1) (by decide +kernel) (by decide +kernel)
    hsame⟩

end VpnTunnel
