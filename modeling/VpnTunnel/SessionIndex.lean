import VpnTunnel.HonestHandshake
import VpnTunnel.InitiationReplay
import VpnTunnel.SessionKeys

/-!
# Session indices

A host gives every session an index, by which the other side addresses it: `next_local_index` starts
at 1, for "0 is reserved as invalid index", and is counted up by one for every initiation accepted.
The index has 32 bits and wraps without a check: after `2 ^ 32` initiations a session has the reserved
index, which no datagram can reach, and the indices of sessions still in use are given out again.

## The argument

The sessions in use hold their indices as they hold their keys, so the library `OneTime` applies: two
sessions at different places have different indices as long as an index is issued once. Before it
wraps, `next_local_index` lies past everything issued.

## What is proved

* `indices_unique_iff` — in a run, all sessions in use have indices that name them in every state
  reached exactly when no initiation is accepted after `next_local_index` has wrapped.
* `indices_wrap` — a run in which it wraps.
-/

namespace VpnTunnel

open Octets OneTime

variable {β : Type}

/-- The indices of the sessions in use name them. -/
structure IndicesUnique (t : PeerTable β) : Prop where
  /-- None is the reserved index. -/
  ne_zero : ∀ i slot s, t.Established i slot s → s.localIndex ≠ 0
  /-- No two are equal. -/
  distinct : ∀ i slot s j slot' s', t.Established i slot s → t.Established j slot' s' →
    s.localIndex = s'.localIndex → i = j ∧ slot = slot'
  /-- Each session is found by its index, with its peer. -/
  find : ∀ i slot s, t.Established i slot s → ∃ i' : Fin t.peers.length, (i' : ℕ) = i ∧
    peerFindByIndex t s.localIndex = some (i', slot) ∧ (t.peers.get i').session slot = s

/-- Indices that are not reserved and pairwise distinct are found. -/
theorem IndicesUnique.of_distinct {t : PeerTable β} (hne : ∀ i slot s, t.Established i slot s → s.localIndex ≠ 0)
    (hdistinct : ∀ i slot s j slot' s', t.Established i slot s → t.Established j slot' s' →
      s.localIndex = s'.localIndex → i = j ∧ slot = slot') : IndicesUnique t where
  ne_zero := hne
  distinct := hdistinct
  find := by
    intro i slot s hs
    obtain ⟨p, hp, rfl, hest⟩ := hs
    obtain ⟨hi, rfl⟩ := List.getElem?_eq_some_iff.mp hp
    have hget := PeerTable.established_get (i := ⟨i, hi⟩) slot hest
    refine ⟨⟨i, hi⟩, rfl, peerFindByIndex_of_unique (hne _ _ _ hget) hest rfl ?_, rfl⟩
    intro j slot' hest' hidx
    obtain ⟨hj, hslot⟩ := hdistinct _ _ _ _ _ _ (PeerTable.established_get slot' hest') hget hidx
    exact ⟨Fin.ext hj, hslot⟩

/-! ### Indices given out -/

/-- An index that was given out when the next one to give out is `next`, which was counted up from 1 and
has wrapped at most once. -/
def GivenOut (next idx : BitVec 32) : Prop := idx ≠ 0 ∧ (next ≠ 0 → idx < next)

section

variable {next idx : BitVec 32}

theorem GivenOut.ne (h : GivenOut next idx) (hnext : next ≠ 0) : idx ≠ next := by
  rintro rfl
  exact BitVec.lt_irrefl idx (h.2 hnext)

theorem GivenOut.add_one (h : GivenOut next idx) (hnext : next ≠ 0) : GivenOut (next + 1) idx := by
  refine ⟨h.1, fun hne => ?_⟩
  have hlt := h.2 hnext
  bv_omega

theorem givenOut_self (hnext : next ≠ 0) : GivenOut (next + 1) next := by
  refine ⟨hnext, fun hne => ?_⟩
  bv_omega

end

/-! ### Runs -/

variable [Octet β] [DecidableEq β]

/-- There is an index to give out: an initiation is accepted only when the next index is not the reserved
one. -/
def IndexRoom (S : Sodium β) (d : Daemon β) : Event β → Prop
  | .udp r => packetPeekType (r.datagram.take 2048) = .handshakeInit → ∀ init,
      handshakeConsumeInitiation S (r.datagram.take 2048) d.staticPriv d.staticPub d.table = .ok init →
        d.table.nextLocalIndex ≠ 0
  | .tun _ => True

instance (S : Sodium β) (d : Daemon β) : DecidablePred (IndexRoom S d)
  | .udp r =>
    have := Except.decidableForallOk (P := fun _ => d.table.nextLocalIndex ≠ 0)
      (handshakeConsumeInitiation S (r.datagram.take 2048) d.staticPriv d.staticPub d.table)
    inferInstanceAs (Decidable (_ → _))
  | .tun _ => isTrue trivial

/-- A session holds its index. -/
def indexView (s : Session β) : Holder (BitVec 32) Empty := ⟨s.localIndex, ∅⟩

/-- The invariant: sessions in use have indices that were given out, each to one of them. -/
def IndexInv (t : PeerTable β) : Prop :=
  ∃ issued, Inv issued ([] : List (BitVec 32 × Empty)) (t.holders indexView) ∧
    ∀ idx ∈ issued, GivenOut t.nextLocalIndex idx

omit [Octet β] [DecidableEq β] in
theorem IndexInv.unique {t : PeerTable β} (h : IndexInv t) : IndicesUnique t := by
  obtain ⟨issued, hinv, hout⟩ := h
  have hholder : ∀ {i slot s}, t.Established i slot s → t.holders indexView (i, slot) (indexView s) :=
    fun hs => ⟨_, hs, rfl⟩
  refine .of_distinct (fun i slot s hs => (hout _ (hinv.issued (hholder hs))).1) ?_
  intro i slot s j slot' s' hs hs' hidx
  exact Prod.mk.inj (hinv.distinct (hholder hs) (hholder hs') hidx)

variable {S : Sodium β} {d d' : Daemon β} {ev : Event β} {effects : List (Effect β)}

/-- **One step keeps the invariant**, if there is an index to give out. -/
theorem indexInv_step (h : StepCase S d ev d' effects) (hroom : IndexRoom S d ev) (hinv : IndexInv d.table) :
    IndexInv d'.table := by
  obtain ⟨issued, hinv, hout⟩ := hinv
  cases h with
  | idle => exact ⟨issued, hinv, hout⟩
  | @data r parsed i slot plain h =>
    refine ⟨issued, PeerTable.inv_update hinv slot (fun slot' hne => Peer.session_received_of_ne hne)
      (peerFindByIndex_eq_some h.find).1 ?_ subset_rfl nofun List.nodup_nil, hout⟩
    rw [Peer.session_received]
    rfl
  | @initiation r init resp h hresp =>
    have hnext : d.table.nextLocalIndex ≠ 0 := hroom h.type init h.consume
    have hfresh : (indexView (d.newSession init resp r.now)).key ∉ issued :=
      fun hmem => (hout _ hmem).ne hnext rfl
    refine ⟨_, PeerTable.inv_rekeyed hinv hfresh, fun idx hidx => ?_⟩
    rcases List.mem_append.mp hidx with hidx | hidx
    · exact (hout idx hidx).add_one hnext
    · rw [List.mem_singleton.mp hidx]
      exact givenOut_self hnext
  | unanswered h hresp =>
    exact ⟨issued, PeerTable.inv_same hinv rfl, fun idx hidx => (hout idx hidx).add_one (hroom h.type _ h.consume)⟩
  | outbound h =>
    exact ⟨issued, PeerTable.inv_update hinv .current (fun slot' hne => Peer.session_counted_of_ne hne)
      h.established rfl subset_rfl nofun List.nodup_nil, hout⟩

/-- It holds in every state of a run in which there always is one. -/
theorem indexInv_run {events : List (Event β)} (hinv : IndexInv d.table)
    (hroom : Machine.Along (step S) (fun _ d ev => IndexRoom S d ev) [] d events) :
    IndexInv (runLoop S d events).1.table :=
  Machine.run_invariant (step S) (I := fun _ d => IndexInv d.table)
    (fun _ d ev hroom hinv => indexInv_step (step_cases S d ev) hroom hinv) hroom hinv

omit [Octet β] [DecidableEq β] in
theorem indexInv_start {t : PeerTable β} (h : t.NoSessions) : IndexInv t :=
  ⟨[], PeerTable.inv_start h, nofun⟩

/-- An initiation accepted when the index has wrapped gets the reserved index. -/
theorem exists_index_zero (hdh : S.DhByPoint) {r : Recv β} {init : ConsumedInitiation d.table}
    (h : InitiationAccepted S d (r.datagram.take 2048) init) (hnext : d.table.nextLocalIndex = 0) :
    ∃ i slot s, (step S d (.udp r)).1.table.Established i slot s ∧ s.localIndex = 0 := by
  obtain ⟨resp, hresp⟩ := h.respond_ok hdh r.ephemeral
  refine ⟨init.peer, .current, d.newSession init resp r.now, ?_, hnext⟩
  rw [step, udpStep_of_initiation h]
  simp only [hresp]
  exact PeerTable.established_update.mpr (.inl ⟨rfl, Daemon.current_rekeyed, rfl⟩)

/-- **The indices of the sessions in use name them**, in every state a run from an empty table reaches,
exactly when every initiation accepted finds `next_local_index` not wrapped to 0. -/
theorem indices_unique_iff (S : Sodium β) (hdh : S.DhByPoint) (d : Daemon β) (events : List (Event β))
    (hstart : d.table.NoSessions) :
    (∀ pre post, events = pre ++ post → IndicesUnique (runLoop S d pre).1.table) ↔
      Machine.Along (step S) (fun _ d ev => IndexRoom S d ev) [] d events := by
  constructor
  · intro hunique
    refine (Machine.along_iff _).mpr fun pre ev post heq => ?_
    cases ev with
    | tun packet => exact trivial
    | udp r =>
      intro htype init hconsume hnext
      obtain ⟨i, slot, s, hs, hzero⟩ := exists_index_zero hdh ⟨htype, hconsume⟩ hnext
      refine (hunique (pre ++ [.udp r]) post (by simp [heq])).ne_zero i slot s ?_ hzero
      rw [runLoop, Machine.fst_run_concat]
      exact hs
  · rintro hroom pre post rfl
    refine (indexInv_run (indexInv_start hstart) ?_).unique
    exact (Machine.along_iff _).mpr fun pre' ev post' heq =>
      (Machine.along_iff _).mp hroom pre' ev (post' ++ post) (by simp [heq])

/-- So they do in a short run of the toy daemon, with two sessions in use at the end. -/
theorem indices_unique_iff_toy :
    (runLoop toySodium toyDaemon toyClockAhead).1.table.peers.map (fun p =>
        (p.previousSession.localIndex, p.currentSession.localIndex)) = [(1, 2)] ∧
      ∀ pre post, toyClockAhead = pre ++ post → IndicesUnique (runLoop toySodium toyDaemon pre).1.table :=
  ⟨by decide +kernel, (indices_unique_iff toySodium toySodium_dhByPoint toyDaemon toyClockAhead
    noSessions_toyDaemon).mpr (by decide +kernel)⟩

/-! ### A run in which the index wraps -/

/-- The initiator sets up a session every second, with a clock that the responder shares. -/
def toyHandshakes (n : ℕ) : List (Event (BitVec 8)) :=
  (List.range n).map fun k => toyRecv (toyInitiation 7 11 (BitVec.ofNat 64 (k + 1))) 13 (BitVec.ofNat 64 (k + 1))

/-- The responder after `n` of them. -/
structure AfterHandshakes (n : ℕ) (d : Daemon (BitVec 8)) : Prop where
  /-- The keys of the host are as before. -/
  static : d.staticPriv = toyDaemon.staticPriv ∧ d.staticPub = toyDaemon.staticPub
  /-- So is the configuration of the peers. -/
  config : d.table.peers.map Peer.config = toyDaemon.table.peers.map Peer.config
  /-- The last handshake was a second ago. -/
  times : d.times = [BitVec.ofNat 64 n]
  /-- The next index was counted up. -/
  next : d.table.nextLocalIndex = BitVec.ofNat 32 (n + 1)
  /-- The current session has the index given out last. -/
  current : 0 < n → ∃ s, d.table.Established 0 .current s ∧ s.localIndex = BitVec.ofNat 32 n

/-- The toy initiation is the honest one. -/
theorem toyInitiation_eq (idx : BitVec 32) (ephemeral : BitVec 8) (sec : BitVec 64) : ∃ z₁ z₂,
    toySodium.scalarmult (List.Vector.replicate 32 ephemeral) (toySodium.scalarmultBase toyResponderPriv) = some z₁ ∧
      toySodium.scalarmult toyInitiatorPriv (toySodium.scalarmultBase toyResponderPriv) = some z₂ ∧
      toyInitiation idx ephemeral sec = (initiationMsg toySodium (toySodium.scalarmultBase toyInitiatorPriv)
        (toySodium.scalarmultBase toyResponderPriv) idx (toySodium.scalarmultBase (List.Vector.replicate 32 ephemeral))
        (timestampBytes sec 0) z₁ z₂).wire := by
  refine ⟨_, _, rfl, rfl, ?_⟩
  rw [toyInitiation, handshakeCreateInitiation_eq_ok.mpr ⟨le_rfl, _, _, rfl, rfl, _, rfl, rfl, rfl⟩]

/-- It is accepted by a responder whose last handshake with the initiator was before. -/
theorem toyInitiation_accepted {d : Daemon (BitVec 8)} {last sec : BitVec 64}
    (hstatic : d.staticPriv = toyDaemon.staticPriv ∧ d.staticPub = toyDaemon.staticPub)
    (hcfg : d.table.peers.map Peer.config = toyDaemon.table.peers.map Peer.config) (htimes : d.times = [last])
    (hlast : last = 0 ∨ last.toInt < sec.toInt) (idx : BitVec 32) (ephemeral : BitVec 8) :
    ∃ init, InitiationAccepted toySodium d ((toyInitiation idx ephemeral sec).take 2048) init ∧
      (init.peer : ℕ) = 0 := by
  obtain ⟨z₁, z₂, h₁, h₂, hmsg⟩ := toyInitiation_eq idx ephemeral sec
  obtain ⟨msg, hdef⟩ : ∃ msg, msg = initiationMsg toySodium (toySodium.scalarmultBase toyInitiatorPriv)
    (toySodium.scalarmultBase toyResponderPriv) idx (toySodium.scalarmultBase (List.Vector.replicate 32 ephemeral))
    (timestampBytes sec 0) z₁ z₂ := ⟨_, rfl⟩
  rw [← hdef] at hmsg
  have htake : msg.wire.take 2048 = msg.wire := List.take_of_length_le (by simp [PacketHandshakeInit.wire])
  have hmap : (peerFindByPubkey d.table (toySodium.scalarmultBase toyInitiatorPriv)).map Fin.val = some 0 := by
    rw [peerFindByPubkey_congr hcfg]
    decide +kernel
  obtain ⟨i, hfind, hi⟩ := Option.map_eq_some_iff.mp hmap
  have hpast : (d.table.peers.get i).lastHandshakeTime = last := by
    have hget : d.times[(i : ℕ)]? = some (d.table.peers.get i).lastHandshakeTime := by simp [Daemon.times]
    rw [htimes, hi] at hget
    exact (Option.some.inj hget).symm
  have hconsume := handshakeConsumeInitiation_honest toySodium_correct hfind (by rw [hpast]; exact hlast) h₁ h₂ msg hdef
  rw [hmsg, htake]
  exact ⟨_, ⟨packetPeekType_initiation msg, (congrArg₂ (fun priv pub =>
    handshakeConsumeInitiation toySodium msg.wire priv pub d.table) hstatic.1 hstatic.2).trans hconsume⟩, hi⟩

theorem toInt_ofNat_of_le {k : ℕ} (h : k ≤ 2 ^ 32) : (BitVec.ofNat 64 k).toInt = k := by
  have hmod : k % 2 ^ 64 = k := Nat.mod_eq_of_lt (by omega)
  rw [BitVec.toInt_eq_toNat_of_lt (by rw [BitVec.toNat_ofNat, hmod]; omega), BitVec.toNat_ofNat, hmod]

/-- One more of them. -/
theorem AfterHandshakes.succ {n : ℕ} {d : Daemon (BitVec 8)} (h : AfterHandshakes n d) (hn : n < 2 ^ 32)
    {packet : List (BitVec 8)} (hpacket : packet = toyInitiation 7 11 (BitVec.ofNat 64 (n + 1))) {now : BitVec 64}
    (hnow : now = BitVec.ofNat 64 (n + 1)) : AfterHandshakes (n + 1) (step toySodium d (toyRecv packet 13 now)).1 := by
  obtain ⟨r, hr, rfl, rfl⟩ : ∃ r, toyRecv packet 13 now = .udp r ∧ r.datagram = packet ∧ r.now' = now :=
    ⟨_, rfl, rfl, rfl⟩
  have hlast : (BitVec.ofNat 64 n).toInt < (BitVec.ofNat 64 (n + 1)).toInt := by
    rw [toInt_ofNat_of_le (by omega), toInt_ofNat_of_le (by omega)]
    omega
  obtain ⟨init, hacc, hpeer⟩ := toyInitiation_accepted h.static h.config h.times (.inr hlast) 7 11
  rw [← hpacket] at hacc
  rw [hr]
  obtain ⟨resp, hresp⟩ := hacc.respond_ok toySodium_dhByPoint r.ephemeral
  have hcase := step_cases toySodium d (.udp r)
  have hstep : (step toySodium d (.udp r)).1 =
      { d with table := d.table.takeIndex.update init.peer (d.rekeyed init resp r) } := by
    rw [step, udpStep_of_initiation hacc]
    simp only [hresp]
  refine ⟨⟨hcase.static.1.trans h.static.1, hcase.static.2.trans h.static.2⟩, hcase.config.trans h.config, ?_, ?_, ?_⟩
  · rw [hstep]
    refine List.map_set.trans ?_
    rw [Daemon.lastHandshakeTime_rekeyed, hpeer, hnow]
    exact congrArg (fun times => List.set times 0 _) h.times
  · rw [hstep]
    exact (congrArg (· + 1) h.next).trans (BitVec.ofNat_add (n + 1) 1).symm
  · rw [hstep]
    exact fun _ => ⟨_, PeerTable.established_update.mpr (.inl ⟨hpeer.symm, Daemon.current_rekeyed, rfl⟩), h.next⟩

theorem afterHandshakes {n : ℕ} (hn : n ≤ 2 ^ 32) :
    AfterHandshakes n (runLoop toySodium toyDaemon (toyHandshakes n)).1 := by
  induction n with
  | zero => exact ⟨⟨rfl, rfl⟩, rfl, rfl, rfl, fun h => absurd h (Nat.lt_irrefl 0)⟩
  | succ n ih =>
    rw [toyHandshakes, List.range_succ, List.map_append, List.map_singleton, ← toyHandshakes, runLoop,
      Machine.fst_run_concat, ← runLoop]
    exact (ih (by omega)).succ (by omega) rfl rfl

/-- **After `2 ^ 32` handshakes a session in use has the reserved index**, by which it cannot be found. -/
theorem indices_wrap : ¬ IndicesUnique (runLoop toySodium toyDaemon (toyHandshakes (2 ^ 32))).1.table := by
  intro hunique
  obtain ⟨s, hs, hidx⟩ := (afterHandshakes le_rfl).current (Nat.two_pow_pos 32)
  exact hunique.ne_zero 0 .current s hs (by rw [hidx]; rfl)

end VpnTunnel
