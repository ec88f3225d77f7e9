import VpnTunnel.SessionIndex

/-!
# Packets in flight during a rekey

When an initiation is accepted the current session of the peer becomes the previous one, "for
transition", so that packets sealed under its keys are still taken. This module proves that one rekey
does not disturb them, and that they are refused after two.

## The argument

What a session does with the datagrams addressed to it depends on the session, on the device and on
the ranges of its peer, not on the slot it is kept in. So a session is a machine of its own
(`sessionStep`), and the daemon simulates it on the datagrams addressed to its index, wherever the
session is (`Serving`). A rekey moves the session with its filter.

Each initiation of the peer moves the session one place on: from the current slot to the previous one,
and out of the table (`place`). As long as indices are not given out again, no other session takes its
index.

## What is proved

* `Serving.step` — the daemon simulates the session.
* `Aged.step` — where the index is in use after some initiations.
* `rekey_transparent` — both halves, for every state a run reaches.
-/

namespace VpnTunnel

open Octets

variable {β : Type} [Octet β]

/-- A data datagram addressed to an index. -/
def AddressedTo (idx : BitVec 32) : Event β → Prop
  | .udp r => ∃ parsed, packetParseData (r.datagram.take 2048) = .ok parsed ∧ parsed.receiverIndex = idx
  | .tun _ => False

instance (idx : BitVec 32) : DecidablePred (AddressedTo (β := β) idx)
  | .udp r => match h : packetParseData (r.datagram.take 2048) with
    | .ok parsed => decidable_of_iff (parsed.receiverIndex = idx)
      ⟨fun hidx => ⟨parsed, h, hidx⟩, fun ⟨_, hparse, hidx⟩ => by cases h.symm.trans hparse; exact hidx⟩
    | .error _ => isFalse fun ⟨_, hparse, _⟩ => by cases h.symm.trans hparse
  | .tun _ => isFalse id

/-! ### A session on its own -/

/-- What a session of peer `p`, the `i`-th of the table, does with a datagram addressed to it: check the
counter, open the packet, mark the counter and deliver. -/
def sessionStep (S : Sodium β) (tun : TunDevice) (i : ℕ) (p : Peer β) (s : Session β) :
    Event β → Session β × List (Effect β)
  | .udp r =>
    match packetParseData (r.datagram.take 2048) with
    | .error _ => (s, [])
    | .ok parsed =>
      if replayCheck s.replayFilter parsed.counter then
        match vpnCryptoAeadDecrypt S (ofList parsed.ciphertext) parsed.authTag [] parsed.counter s.recvKey with
        | .error _ => (s, [])
        | .ok plain => ({ s with replayFilter := replayUpdate s.replayFilter parsed.counter },
            deliver tun i p s.recvKey parsed.counter plain.toList)
      else (s, [])
  | .tun _ => (s, [])

section

variable {S : Sodium β} {tun : TunDevice} {i : ℕ} {p : Peer β} {s : Session β} {r : Recv β} {parsed : PacketData β}

theorem sessionStep_of_opens (hparse : packetParseData (r.datagram.take 2048) = .ok parsed)
    (hfresh : replayCheck s.replayFilter parsed.counter = true) {plain : Bytes β parsed.ciphertext.length}
    (hopens : vpnCryptoAeadDecrypt S (ofList parsed.ciphertext) parsed.authTag [] parsed.counter s.recvKey =
      .ok plain) :
    sessionStep S tun i p s (.udp r) = ({ s with replayFilter := replayUpdate s.replayFilter parsed.counter },
      deliver tun i p s.recvKey parsed.counter plain.toList) := by
  simp only [sessionStep, hparse, hfresh, if_true, hopens]

theorem sessionStep_of_not_opens (hparse : packetParseData (r.datagram.take 2048) = .ok parsed)
    (h : ∀ plain, replayCheck s.replayFilter parsed.counter = true →
      vpnCryptoAeadDecrypt S (ofList parsed.ciphertext) parsed.authTag [] parsed.counter s.recvKey ≠ .ok plain) :
    sessionStep S tun i p s (.udp r) = (s, []) := by
  simp only [sessionStep, hparse]
  split
  · next hfresh =>
    split
    · rfl
    · next plain hopens => exact absurd hopens (h plain hfresh)
  · rfl

end

variable [DecidableEq β]

/-- In state `d` of a run from `d₀`, the session `s` with index `idx` is in use in a slot of peer `i`. -/
structure Serving (d₀ : Daemon β) (i : ℕ) (slot : Slot) (idx : BitVec 32) (d : Daemon β) (s : Session β) : Prop where
  /-- The indices name the sessions in use. -/
  inv : IndexInv d.table
  /-- The session is in use. -/
  established : d.table.Established i slot s
  /-- It has the index. -/
  index : s.localIndex = idx
  /-- The device is that of the start. -/
  tun : d.tun = d₀.tun
  /-- So is the configuration of the peers. -/
  config : d.table.peers.map Peer.config = d₀.table.peers.map Peer.config

variable {S : Sodium β} {d d₀ d' : Daemon β} {ev : Event β} {effects : List (Effect β)} {i : ℕ} {slot : Slot}
  {idx : BitVec 32} {s : Session β}

omit [Octet β] [DecidableEq β] in
/-- A session in use is served from its place. -/
theorem Serving.refl (hinv : IndexInv d.table) (h : d.table.Established i slot s) :
    Serving d i slot s.localIndex d s :=
  ⟨hinv, h, rfl, rfl, rfl⟩

omit [DecidableEq β] [Octet β] in
/-- The ranges of a peer are those of the configuration. -/
theorem allowedIps_of_config {t t₀ : PeerTable β} (hcfg : t.peers.map Peer.config = t₀.peers.map Peer.config)
    {p₀ : Peer β} {i : Fin t.peers.length} (hp₀ : t₀.peers[(i : ℕ)]? = some p₀) :
    (t.peers.get i).allowedIps = p₀.allowedIps := by
  have hget : (t.peers.map Peer.config)[(i : ℕ)]? = (t₀.peers.map Peer.config)[(i : ℕ)]? := by rw [hcfg]
  rw [List.getElem?_map, List.getElem?_map, hp₀, List.getElem?_eq_getElem i.isLt] at hget
  exact congrArg Prod.snd (Option.some.inj hget)

/-- A datagram addressed to an index is no initiation. -/
theorem AddressedTo.not_initiation {r : Recv β} (h : AddressedTo idx (.udp r)) (init : ConsumedInitiation d.table) :
    ¬ InitiationAccepted S d (r.datagram.take 2048) init := by
  obtain ⟨parsed, hparse, -⟩ := h
  intro hinit
  rcases packetPeekType_of_packetParseData hparse with htype | htype <;> cases htype.symm.trans hinit.type

/-- So there is no need for an index. -/
theorem AddressedTo.indexRoom (h : AddressedTo idx ev) : IndexRoom S d ev := by
  cases ev with
  | tun packet => exact trivial
  | udp r => exact fun htype init hconsume => absurd ⟨htype, hconsume⟩ (h.not_initiation init)

theorem StepCase.tun (h : StepCase S d ev d' effects) : d'.tun = d.tun := by
  cases h <;> rfl

/-- **The daemon does with a datagram addressed to a session what the session does**, and serves the
session from the same place afterwards. -/
theorem Serving.step {p : Peer β} (hp : d₀.table.peers[i]? = some p) (h : Serving d₀ i slot idx d s)
    (haddr : AddressedTo idx ev) :
    (step S d ev).2 = (sessionStep S d₀.tun i p s ev).2 ∧
      Serving d₀ i slot idx (VpnTunnel.step S d ev).1 (sessionStep S d₀.tun i p s ev).1 := by
  cases ev with
  | tun packet => exact absurd haddr id
  | udp r =>
    have hcase := step_cases S d (.udp r)
    have hinv := indexInv_step hcase haddr.indexRoom h.inv
    have hcfg := hcase.config.trans h.config
    have htun := hcase.tun.trans h.tun
    have hinit := fun init => haddr.not_initiation (S := S) (d := d) init
    obtain ⟨parsed, hparse, hidx⟩ := haddr
    obtain ⟨i', rfl, hfind, rfl⟩ := h.inv.unique.find i slot s h.established
    rw [h.index, ← hidx] at hfind
    by_cases hacc : ∃ plain, DataAccepted S d (r.datagram.take 2048) parsed i' slot plain
    · obtain ⟨plain, hacc⟩ := hacc
      rw [sessionStep_of_opens hparse hacc.fresh hacc.opens]
      have hstep := udpStep_of_data hacc
      refine ⟨?_, hinv, ?_, h.index, htun, hcfg⟩
      · rw [VpnTunnel.step, hstep, h.tun]
        exact deliver_congr (allowedIps_of_config h.config hp) _ _ _ _ _
      · rw [VpnTunnel.step, hstep]
        exact PeerTable.established_update.mpr (.inl ⟨rfl, Peer.session_received, (peerFindByIndex_eq_some hfind).1⟩)
    · have hdrop : udpStep S d r = (d, []) := by
        refine udpStep_of_not_accepted (fun parsed' j slot' plain hacc' => hacc ?_) hinit
        cases hparse.symm.trans hacc'.parse
        cases hfind.symm.trans hacc'.find
        exact ⟨plain, hacc'⟩
      have hclosed : sessionStep S d₀.tun i' p ((d.table.peers.get i').session slot) (.udp r) = (_, []) :=
        sessionStep_of_not_opens hparse fun plain hfresh hopens =>
          hacc ⟨plain, packetPeekType_of_packetParseData hparse, hparse, hfind, hfresh, hopens⟩
      rw [VpnTunnel.step, hdrop, hclosed]
      exact ⟨rfl, h⟩

/-- So it does with any number of them. -/
theorem Serving.run {p : Peer β} (hp : d₀.table.peers[i]? = some p) {events : List (Event β)}
    (haddr : ∀ ev ∈ events, AddressedTo idx ev) (h : Serving d₀ i slot idx d s) :
    Machine.outputs (VpnTunnel.step S) d events = Machine.outputs (sessionStep S d₀.tun i p) s events ∧
      Serving d₀ i slot idx (runLoop S d events).1 (Machine.run (sessionStep S d₀.tun i p) s events).1 :=
  Machine.simulates _ (fun _ _ _ haddr h => h.step hp haddr) haddr h

omit [DecidableEq β] in
/-- The sessions in use after an initiation of a peer that had a current session: the new one, and the one
that was current. -/
theorem Daemon.established_rekeyed_of_current {init : ConsumedInitiation d.table} {resp : CreatedResponse β}
    {r : Recv β} (hcur : (d.table.peers.get init.peer).currentSession.state = .established) {j : ℕ} :
    (d.table.takeIndex.update init.peer (d.rekeyed init resp r)).Established j slot s ↔
      (j = init.peer ∧ slot = .current ∧ s = d.newSession init resp r.now) ∨
      (j = init.peer ∧ slot = .previous ∧ d.table.Established j .current s) ∨
      (j ≠ init.peer ∧ d.table.Established j slot s) := by
  have hprev : (d.rekeyed init resp r).previousSession = (d.table.peers.get init.peer).currentSession := by
    rw [Daemon.rekeyed, peerUpdateEndpoint_fst, peerInitSession_eq]
    exact if_pos hcur
  refine PeerTable.established_update.trans ?_
  constructor
  · rintro (⟨rfl, hs, hest⟩ | hother)
    · cases slot with
      | current => exact .inl ⟨rfl, rfl, hs.symm.trans Daemon.current_rekeyed⟩
      | previous =>
        obtain rfl := hprev.symm.trans hs
        exact .inr (.inl ⟨rfl, rfl, PeerTable.established_get .current hcur⟩)
    · exact .inr (.inr hother)
  · rintro (⟨rfl, rfl, rfl⟩ | ⟨rfl, rfl, q, hq, rfl, hest⟩ | hother)
    · exact .inl ⟨rfl, Daemon.current_rekeyed, rfl⟩
    · rw [List.getElem?_eq_getElem init.peer.isLt] at hq
      cases hq
      exact .inl ⟨rfl, hprev, hest⟩
    · exact .inr hother

/-- **An initiation of the peer moves the current session to the previous slot**, as it is. -/
theorem Serving.rekey (hdh : S.DhByPoint) (h : Serving d₀ i .current idx d s) {r : Recv β}
    {init : ConsumedInitiation d.table} (hacc : InitiationAccepted S d (r.datagram.take 2048) init)
    (hpeer : (init.peer : ℕ) = i) (hroom : IndexRoom S d (.udp r)) :
    Serving d₀ i .previous idx (VpnTunnel.step S d (.udp r)).1 s := by
  have hcase := step_cases S d (.udp r)
  refine ⟨indexInv_step hcase hroom h.inv, ?_, h.index, hcase.tun.trans h.tun, hcase.config.trans h.config⟩
  obtain ⟨resp, hresp⟩ := hacc.respond_ok hdh r.ephemeral
  subst hpeer
  have hcur : (d.table.peers.get init.peer).currentSession.state = .established := by
    obtain ⟨q, hq, rfl, hest⟩ := h.established
    rw [List.getElem?_eq_getElem init.peer.isLt] at hq
    cases hq
    exact hest
  rw [VpnTunnel.step, udpStep_of_initiation hacc]
  simp only [hresp]
  exact (Daemon.established_rekeyed_of_current hcur).mpr (.inr (.inl ⟨rfl, rfl, h.established⟩))

/-! ### Where an index is in use -/

/-- A session with the index is in use in a slot of a peer. -/
def PeerTable.UsesIndex (t : PeerTable β) (j : ℕ) (slot : Slot) (idx : BitVec 32) : Prop :=
  ∃ s, t.Established j slot s ∧ s.localIndex = idx

omit [Octet β] [DecidableEq β] in
/-- Writing a session back in use and with its index leaves the indices in use. -/
theorem PeerTable.usesIndex_update {t : PeerTable β} {i : Fin t.peers.length} {p : Peer β}
    (hstate : ∀ slot, (p.session slot).state = ((t.peers.get i).session slot).state)
    (hindex : ∀ slot, (p.session slot).localIndex = ((t.peers.get i).session slot).localIndex) {j : ℕ} :
    (t.update i p).UsesIndex j slot idx ↔ t.UsesIndex j slot idx := by
  constructor
  · rintro ⟨s, hs, rfl⟩
    rcases PeerTable.established_update.mp hs with ⟨rfl, rfl, hest⟩ | ⟨-, hs⟩
    · exact ⟨_, PeerTable.established_get slot ((hstate slot).symm.trans hest), (hindex slot).symm⟩
    · exact ⟨s, hs, rfl⟩
  · rintro ⟨s, hs, rfl⟩
    by_cases hj : j = i
    · obtain ⟨q, hq, rfl, hest⟩ := hs
      rw [hj, List.getElem?_eq_getElem i.isLt] at hq
      cases hq
      exact ⟨_, PeerTable.established_update.mpr (.inl ⟨hj, rfl, (hstate slot).trans hest⟩), hindex slot⟩
    · exact ⟨s, PeerTable.established_update.mpr (.inr ⟨hj, hs⟩), rfl⟩

omit [Octet β] [DecidableEq β] in
theorem Peer.index_received (p : Peer β) (slot : Slot) (counter : BitVec 64) (src : Endpoint) (slot' : Slot) :
    ((p.received slot counter src).session slot').state = (p.session slot').state ∧
      ((p.received slot counter src).session slot').localIndex = (p.session slot').localIndex := by
  by_cases hslot : slot' = slot
  · subst hslot
    rw [Peer.session_received]
    exact ⟨rfl, rfl⟩
  · rw [Peer.session_received_of_ne hslot]
    exact ⟨rfl, rfl⟩

omit [Octet β] [DecidableEq β] in
theorem Peer.index_counted (p : Peer β) (slot : Slot) : (p.counted.session slot).state = (p.session slot).state ∧
    (p.counted.session slot).localIndex = (p.session slot).localIndex := by
  cases slot <;> exact ⟨rfl, rfl⟩

/-- The number of initiations of a peer that were accepted. -/
def acceptedFor (i : ℕ) (trace : List (Effect β)) : ℕ := (acceptances trace).countP fun a => a.peer = i

/-- Where a current session is after `n` initiations of its peer. -/
def place : ℕ → Option Slot
  | 0 => some .current
  | 1 => some .previous
  | _ => none

theorem eq_zero_of_place_current {n : ℕ} (h : place n = some .current) : n = 0 := by
  rcases n with _ | _ | n
  · rfl
  · cases h
  · cases h

theorem place_of_two_le : ∀ {n : ℕ}, 2 ≤ n → place n = none
  | _ + 2, _ => rfl

/-- The state after `n` initiations of peer `i`, since its current session had the index `idx`. -/
structure Aged (i : ℕ) (idx : BitVec 32) (n : ℕ) (d : Daemon β) : Prop where
  /-- The peer has a current session. -/
  current : ∃ idx', d.table.UsesIndex i .current idx'
  /-- The index will not be given out again. -/
  given : GivenOut d.table.nextLocalIndex idx
  /-- It is in use in one place, if any. -/
  only : ∀ j slot, d.table.UsesIndex j slot idx → j = i ∧ place n = some slot

omit [Octet β] [DecidableEq β] in
theorem Aged.of_iff {n : ℕ} (h : Aged i idx n d) (hnext : d'.table.nextLocalIndex = d.table.nextLocalIndex)
    (huses : ∀ j slot idx, d'.table.UsesIndex j slot idx ↔ d.table.UsesIndex j slot idx) : Aged i idx n d' where
  current := h.current.imp fun idx' => (huses i .current idx').mpr
  given := hnext.symm ▸ h.given
  only j slot huse := h.only j slot ((huses j slot idx).mp huse)

omit [Octet β] [DecidableEq β] in
theorem acceptedFor_append (i : ℕ) (trace effects : List (Effect β)) :
    acceptedFor i (trace ++ effects) = acceptedFor i trace + acceptedFor i effects := by
  rw [acceptedFor, acceptances_append, List.countP_append, ← acceptedFor, ← acceptedFor]

omit [DecidableEq β] in
theorem acceptedFor_deliver {tun : TunDevice} {j : ℕ} {p : Peer β} {key : Bytes β 32} {c : BitVec 64} {plain : List β} :
    acceptedFor i (deliver tun j p key c plain) = 0 :=
  congrArg (List.countP _) (filterMap_deliver fun _ _ _ _ => rfl)

omit [DecidableEq β] in
theorem acceptedFor_outbound {key : Bytes β 32} {nonce : Bytes β 12} {p : Peer β} {buf : List β} :
    acceptedFor i (.encrypt key nonce buf :: sendSealed S p buf) = 0 :=
  congrArg (List.countP _) (filterMap_sendSealed S (fun _ _ => rfl) p buf)

omit [DecidableEq β] in
/-- An initiation of the peer makes a session one older. -/
theorem Aged.rekeyed {n : ℕ} (h : Aged i idx n d) {init : ConsumedInitiation d.table} (hpeer : (init.peer : ℕ) = i)
    (hnext : d.table.nextLocalIndex ≠ 0) (resp : CreatedResponse β) (r : Recv β) :
    Aged i idx (n + 1) { d with table := d.table.takeIndex.update init.peer (d.rekeyed init resp r) } := by
  subst hpeer
  have hcur : (d.table.peers.get init.peer).currentSession.state = .established := by
    obtain ⟨-, -, ⟨q, hq, rfl, hest⟩, -⟩ := h.current
    rw [List.getElem?_eq_getElem init.peer.isLt] at hq
    cases hq
    exact hest
  refine ⟨⟨_, _, (Daemon.established_rekeyed_of_current hcur).mpr (.inl ⟨rfl, rfl, rfl⟩), rfl⟩,
    h.given.add_one hnext, ?_⟩
  rintro j slot ⟨s, hs, hidx⟩
  rcases (Daemon.established_rekeyed_of_current hcur).mp hs with ⟨-, -, rfl⟩ | ⟨rfl, rfl, hold⟩ | ⟨hj, hold⟩
  · exact absurd hidx.symm (h.given.ne hnext)
  · -- it was current, so there was no initiation before
    obtain ⟨-, hplace⟩ := h.only _ _ ⟨s, hold, hidx⟩
    obtain rfl := eq_zero_of_place_current hplace
    exact ⟨rfl, rfl⟩
  · exact absurd (h.only _ _ ⟨s, hold, hidx⟩).1 hj

omit [DecidableEq β] in
/-- An initiation of another peer does nothing to it. -/
theorem Aged.rekeyed_other {n : ℕ} (h : Aged i idx n d) {init : ConsumedInitiation d.table}
    (hpeer : (init.peer : ℕ) ≠ i) (hnext : d.table.nextLocalIndex ≠ 0) (resp : CreatedResponse β) (r : Recv β) :
    Aged i idx n { d with table := d.table.takeIndex.update init.peer (d.rekeyed init resp r) } := by
  obtain ⟨idx', s', hs', hidx'⟩ := h.current
  refine ⟨⟨idx', s', PeerTable.established_update.mpr (.inr ⟨hpeer.symm, hs'⟩), hidx'⟩, h.given.add_one hnext, ?_⟩
  rintro j slot ⟨s, hs, hidx⟩
  rcases Daemon.established_rekeyed hs with ⟨-, -, rfl⟩ | ⟨rfl, -, slot', hs⟩ | ⟨-, hs⟩
  · exact absurd hidx.symm (h.given.ne hnext)
  · exact absurd (h.only _ _ ⟨s, hs, hidx⟩).1 hpeer
  · exact h.only _ _ ⟨s, hs, hidx⟩

/-- **One step**, if there is an index to give out, and every initiation accepted is answered. -/
theorem Aged.step (hdh : S.DhByPoint) (h : StepCase S d ev d' effects) (hroom : IndexRoom S d ev)
    {trace : List (Effect β)} (haged : Aged i idx (acceptedFor i trace) d) :
    Aged i idx (acceptedFor i (trace ++ effects)) d' := by
  rw [acceptedFor_append]
  cases h with
  | idle => exact haged
  | data h =>
    rw [acceptedFor_deliver]
    exact haged.of_iff rfl fun _ _ _ => PeerTable.usesIndex_update (fun slot => (Peer.index_received _ _ _ _ slot).1)
      fun slot => (Peer.index_received _ _ _ _ slot).2
  | @initiation r init resp h hresp =>
    have hnext := hroom h.type init h.consume
    by_cases hpeer : (init.peer : ℕ) = i
    · have hone : acceptedFor i [.accept init.peer init.timestamp (r.datagram.take 2048),
          .install init.peer (d.newSession init resp r.now), .send r.src resp.packet] = 1 := by
        simp [acceptedFor, acceptances, hpeer]
      rw [hone]
      exact haged.rekeyed hpeer hnext resp r
    · have hnone : acceptedFor i [.accept init.peer init.timestamp (r.datagram.take 2048),
          .install init.peer (d.newSession init resp r.now), .send r.src resp.packet] = 0 := by
        simp [acceptedFor, acceptances, hpeer]
      rw [hnone]
      exact haged.rekeyed_other hpeer hnext resp r
  | @unanswered r init e h hresp =>
    obtain ⟨resp, hok⟩ := h.respond_ok hdh r.ephemeral
    cases hresp.symm.trans hok
  | outbound h =>
    rw [acceptedFor_outbound]
    exact haged.of_iff rfl fun _ _ _ => PeerTable.usesIndex_update (fun slot => (Peer.index_counted _ slot).1)
      fun slot => (Peer.index_counted _ slot).2

/-- A datagram addressed to an index that is not in use is dropped. -/
theorem step_of_not_usesIndex (h : ∀ j slot, ¬ d.table.UsesIndex j slot idx) (haddr : AddressedTo idx ev) :
    step S d ev = (d, []) := by
  cases ev with
  | tun packet => exact absurd haddr id
  | udp r =>
    refine udpStep_of_not_accepted (fun parsed j slot plain hacc => ?_) haddr.not_initiation
    obtain ⟨parsed', hparse, hidx⟩ := haddr
    cases hparse.symm.trans hacc.parse
    obtain ⟨hest, hidx'⟩ := peerFindByIndex_eq_some hacc.find
    exact h j slot ⟨_, PeerTable.established_get slot hest, hidx'.trans hidx⟩

omit [Octet β] [DecidableEq β] in
/-- In every state a run reaches, the index of a current session is in use there only. -/
theorem aged_start (hinv : IndexInv d.table) (h : d.table.Established i .current s) : Aged i s.localIndex 0 d := by
  refine ⟨⟨_, s, h, rfl⟩, ?_, ?_⟩
  · obtain ⟨issued, hinv, hout⟩ := hinv
    exact hout _ (hinv.issued (a := (i, .current)) ⟨s, h, rfl⟩)
  · rintro j slot ⟨s', hs', hidx⟩
    obtain ⟨rfl, rfl⟩ := hinv.unique.distinct _ _ _ _ _ _ hs' h hidx
    exact ⟨rfl, rfl⟩

/-- **After two initiations of the peer** no session has the index. -/
theorem dropped_after_two (hdh : S.DhByPoint) (hinv : IndexInv d.table) (h : d.table.Established i .current s)
    {later : List (Event β)} (hroom : Machine.Along (step S) (fun _ d ev => IndexRoom S d ev) [] d later)
    (htwo : 2 ≤ acceptedFor i (runLoop S d later).2) (haddr : AddressedTo s.localIndex ev) :
    step S (runLoop S d later).1 ev = ((runLoop S d later).1, []) := by
  have haged : Aged i s.localIndex (acceptedFor i (runLoop S d later).2) (runLoop S d later).1 :=
    Machine.run_invariant (step S) (I := fun trace d => Aged i s.localIndex (acceptedFor i trace) d)
      (fun _ d ev hroom haged => Aged.step hdh (step_cases S d ev) hroom haged) hroom (aged_start hinv h)
  refine step_of_not_usesIndex (fun j slot huse => ?_) haddr
  have hplace := (haged.only j slot huse).2
  rw [place_of_two_le htwo] at hplace
  cases hplace

/-- **One initiation of the peer changes nothing for the datagrams addressed to its current session**: they
get the same answers, and the session ends up the same, in the previous slot. -/
theorem same_after_one (hdh : S.DhByPoint) (hinv : IndexInv d.table) (h : d.table.Established i .current s)
    {before after : List (Event β)} (haddr : ∀ ev ∈ before ++ after, AddressedTo s.localIndex ev) {r : Recv β}
    {init : ConsumedInitiation (runLoop S d before).1.table}
    (hacc : InitiationAccepted S (runLoop S d before).1 (r.datagram.take 2048) init) (hpeer : (init.peer : ℕ) = i)
    (hroom : IndexRoom S (runLoop S d before).1 (.udp r)) :
    (Machine.outputs (step S) d (before ++ .udp r :: after)).eraseIdx before.length =
        Machine.outputs (step S) d (before ++ after) ∧
      ∃ s', s'.localIndex = s.localIndex ∧
        (runLoop S d (before ++ .udp r :: after)).1.table.Established i .previous s' ∧
        (runLoop S d (before ++ after)).1.table.Established i .current s' := by
  obtain ⟨p, hp, -⟩ := id h
  have hbefore := (Serving.refl hinv h).run (S := S) hp fun ev hev => haddr ev (List.mem_append_left _ hev)
  have hafter := fun ev hev => haddr ev (List.mem_append_right before hev)
  have hwithout := hbefore.2.run (S := S) hp hafter
  have hwith := (hbefore.2.rekey hdh hacc hpeer hroom).run (S := S) hp hafter
  refine ⟨?_, _, hwithout.2.index, ?_, ?_⟩
  · rw [Machine.outputs_append, Machine.outputs_append, List.eraseIdx_append_of_length_le (by simp),
      Machine.length_outputs, Nat.sub_self, Machine.outputs, List.eraseIdx_cons_zero]
    exact congrArg _ (hwith.1.trans hwithout.1.symm)
  · rw [runLoop, Machine.run_append]
    exact hwith.2.established
  · rw [runLoop, Machine.run_append]
    exact hwithout.2.established

/-- **A single rekey is transparent to packets in flight, and a second one ends the session.** In every state
reached by a run from an empty table in which indices do not wrap: put one accepted initiation of a peer
anywhere among datagrams addressed to its current session, and each of them is answered as without it,
with the same session at the end. Once two initiations of the peer were accepted, every datagram addressed
to the session is dropped. -/
theorem rekey_transparent (S : Sodium β) (hdh : S.DhByPoint) (d₀ : Daemon β) (hstart : d₀.table.NoSessions)
    (events : List (Event β)) (hrun : Machine.Along (step S) (fun _ d ev => IndexRoom S d ev) [] d₀ events)
    (d : Daemon β) (hd : (runLoop S d₀ events).1 = d) (i : ℕ) (s : Session β)
    (hs : d.table.Established i .current s) :
    (∀ (before after : List (Event β)) (r : Recv β) (init : ConsumedInitiation (runLoop S d before).1.table),
      (∀ ev ∈ before ++ after, AddressedTo s.localIndex ev) →
      InitiationAccepted S (runLoop S d before).1 (r.datagram.take 2048) init → (init.peer : ℕ) = i →
      IndexRoom S (runLoop S d before).1 (.udp r) →
      (Machine.outputs (step S) d (before ++ .udp r :: after)).eraseIdx before.length =
          Machine.outputs (step S) d (before ++ after) ∧
        ∃ s', s'.localIndex = s.localIndex ∧
          (runLoop S d (before ++ .udp r :: after)).1.table.Established i .previous s' ∧
          (runLoop S d (before ++ after)).1.table.Established i .current s') ∧
    ∀ later, Machine.Along (step S) (fun _ d ev => IndexRoom S d ev) [] d later →
      2 ≤ acceptedFor i (runLoop S d later).2 → ∀ ev, AddressedTo s.localIndex ev →
      step S (runLoop S d later).1 ev = ((runLoop S d later).1, []) := by
  have hinv : IndexInv d.table := hd ▸ indexInv_run (indexInv_start hstart) hrun
  exact ⟨fun before after r init haddr hacc hpeer hroom => same_after_one hdh hinv hs haddr hacc hpeer hroom,
    fun later hroom htwo ev haddr => dropped_after_two hdh hinv hs hroom htwo haddr⟩

/-- A packet of 20 octets for the first session. -/
def toyInFlight (counter : BitVec 64) : Event (BitVec 8) :=
  toyRecv (toyData 1 counter toySession.recvKey (List.replicate 20 0)) 0 0

theorem toyInFlight_addressedTo (counter : BitVec 64) : AddressedTo 1 (toyInFlight counter) := by
  obtain ⟨htake, c, tag, hparse⟩ := toyData_parses 1 counter toySession.recvKey
    (show (List.replicate 20 0).length ≤ 1440 by decide)
  exact ⟨_, htake ▸ hparse, rfl⟩

/-- A later initiation. -/
def toyRekey (sec : BitVec 64) : Event (BitVec 8) := toyRecv (toyInitiation 8 19 sec) 17 sec

/-- In a run of the toy daemon two packets are delivered around a rekey and a replay is not, as without the
rekey; after two rekeys the next packet is dropped. -/
theorem rekey_transparent_toy :
    (Machine.outputs (step toySodium) toyEstablished [toyInFlight 0, toyInFlight 1, toyInFlight 0]).map List.length =
        [1, 1, 0] ∧
      (Machine.outputs (step toySodium) toyEstablished
          ([toyInFlight 0] ++ toyRekey 2000 :: [toyInFlight 1, toyInFlight 0])).eraseIdx 1 =
        Machine.outputs (step toySodium) toyEstablished ([toyInFlight 0] ++ [toyInFlight 1, toyInFlight 0]) ∧
      step toySodium (runLoop toySodium toyEstablished [toyRekey 2000, toyRekey 3000]).1 (toyInFlight 2) =
        ((runLoop toySodium toyEstablished [toyRekey 2000, toyRekey 3000]).1, []) := by
  have hs : toyEstablished.table.Established 0 .current toySession :=
    ⟨toyEstablished.table.peers.get toyIndex, List.getElem?_eq_getElem _, toyEstablished_session⟩
  obtain ⟨hone, htwo⟩ := rekey_transparent toySodium toySodium_dhByPoint toyDaemon noSessions_toyDaemon
    [toyRecv (toyInitiation 7 11 1000) 13 500] (by decide +kernel) toyEstablished rfl 0 toySession hs
  have hkept : ((runLoop toySodium toyEstablished [toyInFlight 0]).1.staticPriv = toyDaemon.staticPriv ∧
        (runLoop toySodium toyEstablished [toyInFlight 0]).1.staticPub = toyDaemon.staticPub) ∧
      (runLoop toySodium toyEstablished [toyInFlight 0]).1.table.peers.map Peer.config =
        toyDaemon.table.peers.map Peer.config ∧
      (runLoop toySodium toyEstablished [toyInFlight 0]).1.times = [500] := by
    decide +kernel
  have hidx : toySession.localIndex = 1 := by decide +kernel
  have haddr : ∀ counter, AddressedTo toySession.localIndex (toyInFlight counter) := by
    intro counter
    rw [hidx]
    exact toyInFlight_addressedTo counter
  have hlast : (500 : BitVec 64).toInt < (2000 : BitVec 64).toInt := by decide
  obtain ⟨init, hacc, hpeer⟩ := toyInitiation_accepted hkept.1 hkept.2.1 hkept.2.2 (.inr hlast) 8 19
  have hlater : Machine.Along (step toySodium) (fun _ d ev => IndexRoom toySodium d ev) [] toyEstablished
        [toyRekey 2000, toyRekey 3000] ∧
      2 ≤ acceptedFor 0 (runLoop toySodium toyEstablished [toyRekey 2000, toyRekey 3000]).2 := by
    decide +kernel
  refine ⟨by decide +kernel, (hone [toyInFlight 0] [toyInFlight 1, toyInFlight 0] _ init ?_ hacc hpeer
    (by decide +kernel)).1, htwo [toyRekey 2000, toyRekey 3000] hlater.1 hlater.2 _ (haddr 2)⟩
  intro ev hev
  simp only [List.cons_append, List.nil_append, List.mem_cons, List.not_mem_nil, or_false] at hev
  rcases hev with rfl | rfl | rfl
  · exact haddr 0
  · exact haddr 1
  · exact haddr 0

end VpnTunnel
