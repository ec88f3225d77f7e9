import VpnTunnel.ToySodium

/-!
# Replayed initiations

`handshake_consume_initiation` refuses a "Replayed or stale handshake timestamp". This module asks,
over whole runs of the daemon, whether the timestamps of the initiations accepted for a peer increase,
so that a recorded initiation is worthless.

## The argument

The time an initiation is compared with is `last_handshake_time`, and `peer_init_session` sets that to
the responder's own clock, not to the timestamp that was accepted. While the clock is at or past the
timestamp (and not 0, which stands for "never"), the stored time bounds every timestamp accepted
before, and the next one has to exceed it. When the clock is behind, it does not, and the same
datagram is accepted again.

The seconds of a timestamp are a `uint64_t`, ordered as such here, but they are compared as the
`time_t` they are cast to. The two orders agree below 2^63, so the clock has to be below that too: then
seconds from 2^63 on, which the comparison takes for negative, are refused as stale.

That every accepted initiation is also answered, so that the time is stored at all, needs X25519 to
fail on the public key alone (`InitiationAccepted.respond_ok`). That a datagram cannot come back with
another timestamp or for another peer is because neither the keys of the host nor those of the peers
change (`OpensTo.unique`).

## What is proved

* `initiation_replay` — a run in which an initiation is accepted twice, the clock being behind.
* `initiations_increasing` — in every run in which the clock is ahead of what is accepted, the
  timestamps of each peer increase and no initiation is accepted twice.
-/

namespace VpnTunnel

open Octets

variable {β : Type}

/-- An initiation that was accepted: the peer, the timestamp and the datagram. -/
structure Acceptance (β : Type) where
  /-- The peer it was accepted for. -/
  peer : ℕ
  /-- The timestamp it carried. -/
  timestamp : Bytes β 12
  /-- The datagram. -/
  datagram : List β

/-- The initiations accepted, in order. -/
def acceptances (trace : List (Effect β)) : List (Acceptance β) :=
  trace.filterMap fun
    | .accept i ts buf => some ⟨i, ts, buf⟩
    | _ => none

theorem acceptances_append (trace effects : List (Effect β)) :
    acceptances (trace ++ effects) = acceptances trace ++ acceptances effects :=
  List.filterMap_append

variable [Octet β]

/-- The seconds of an acceptance, the `uint64_t` of the timestamp. -/
def Acceptance.sec (a : Acceptance β) : ℕ := (timestampSec a.timestamp).toNat

/-- If the two are for one peer, the second has the later timestamp. -/
def Acceptance.Before (a b : Acceptance β) : Prop := a.peer = b.peer → a.sec < b.sec

instance (a b : Acceptance β) : Decidable (a.Before b) :=
  inferInstanceAs (Decidable (a.peer = b.peer → a.sec < b.sec))

variable [DecidableEq β]

/-- The clock is ahead: when an initiation is accepted, the handshake time that will be stored is not
0, not before the timestamp, and not negative as a `time_t`. -/
def ClockAhead (S : Sodium β) (d : Daemon β) : Event β → Prop
  | .udp r => ∀ init, handshakeConsumeInitiation S (r.datagram.take 2048) d.staticPriv d.staticPub d.table = .ok init →
      r.now' ≠ 0 ∧ (timestampSec init.timestamp).toNat ≤ r.now'.toNat ∧ r.now'.toNat < 2 ^ 63
  | .tun _ => True

instance (S : Sodium β) (d : Daemon β) : DecidablePred (ClockAhead S d)
  | .udp r =>
    Except.decidableForallOk (handshakeConsumeInitiation S (r.datagram.take 2048) d.staticPriv d.staticPub d.table)
  | .tun _ => isTrue trivial

/-! ### What a datagram opens to -/

/-- A datagram opens to an initiation of a peer with a timestamp. This depends on the keys of the host
and of the peers only. -/
def OpensTo (S : Sodium β) (d : Daemon β) (a : Acceptance β) : Prop :=
  ∃ msg z₁ theirStatic z₂, packetParseHandshakeInit a.datagram = .ok msg ∧
    InitiationOpens S d.staticPriv d.staticPub msg z₁ theirStatic z₂ a.timestamp ∧
    (peerFindByPubkey d.table theirStatic).map Fin.val = some a.peer

variable {S : Sodium β} {d d₀ d' : Daemon β} {ev : Event β} {effects trace : List (Effect β)}

/-- A datagram opens in one way. -/
theorem OpensTo.unique {a b : Acceptance β} (ha : OpensTo S d a) (hb : OpensTo S d b)
    (heq : a.datagram = b.datagram) : a.peer = b.peer ∧ a.timestamp = b.timestamp := by
  obtain ⟨msg, z₁, k, z₂, hparse, hopens, hi⟩ := ha
  obtain ⟨msg', z₁', k', z₂', hparse', hopens', hi'⟩ := hb
  rw [heq] at hparse
  cases hparse.symm.trans hparse'
  obtain ⟨rfl, hts⟩ := hopens.unique hopens'
  exact ⟨Option.some.inj (hi.symm.trans hi'), hts⟩

omit [Octet β] in
/-- A key is found at the same place in every table with the same configuration. -/
theorem peerFindByPubkey_congr {t t' : PeerTable β} (h : t'.peers.map Peer.config = t.peers.map Peer.config)
    (k : Bytes β 32) : (peerFindByPubkey t' k).map Fin.val = (peerFindByPubkey t k).map Fin.val := by
  have hidx : ∀ t : PeerTable β, (peerFindByPubkey t k).map Fin.val =
      (t.peers.map Peer.config).findIdx? fun c => c.1 = k := by
    intro t
    rw [List.findIdx?_map, peerFindByPubkey, List.findIdx?_eq_map_findFinIdx?_val]
    rfl
  rw [hidx, hidx, h]

/-- What is accepted is what the datagram opens to, in every state with the same keys. -/
theorem InitiationAccepted.opensTo {buf : List β} {init : ConsumedInitiation d.table}
    (h : InitiationAccepted S d buf init) (hstatic : d.staticPriv = d₀.staticPriv ∧ d.staticPub = d₀.staticPub)
    (hcfg : d.table.peers.map Peer.config = d₀.table.peers.map Peer.config) :
    OpensTo S d₀ ⟨init.peer, init.timestamp, buf⟩ := by
  obtain ⟨hparse, z₁, theirStatic, z₂, hopens, hfind, -⟩ := handshakeConsumeInitiation_eq_ok.mp h.consume
  refine ⟨init.parsed, z₁, theirStatic, z₂, hparse, hstatic.1 ▸ hstatic.2 ▸ hopens, ?_⟩
  rw [← peerFindByPubkey_congr hcfg, hfind, Option.map_some]

/-! ### What a step accepts -/

/-- The handshake times of the peers. -/
def Daemon.times (d : Daemon β) : List (BitVec 64) := d.table.peers.map Peer.lastHandshakeTime

/-- A step accepts nothing and leaves the handshake times, or it accepts one initiation, for which it
stores the clock. -/
theorem StepCase.accepts (hdh : S.DhByPoint) (h : StepCase S d ev d' effects) :
    (acceptances effects = [] ∧ d'.times = d.times) ∨
      ∃ r init, ev = .udp r ∧ InitiationAccepted S d (r.datagram.take 2048) init ∧
        acceptances effects = [⟨init.peer, init.timestamp, r.datagram.take 2048⟩] ∧
        d'.times = d.times.set init.peer r.now' := by
  cases h with
  | idle => exact .inl ⟨rfl, rfl⟩
  | data h =>
    exact .inl ⟨filterMap_deliver fun _ _ _ _ => rfl, PeerTable.map_update _ Peer.lastHandshakeTime_received⟩
  | @initiation r init resp h hresp =>
    refine .inr ⟨r, init, rfl, h, rfl, ?_⟩
    exact List.map_set.trans (congrArg _ Daemon.lastHandshakeTime_rekeyed)
  | @unanswered r init e h hresp =>
    obtain ⟨resp, hok⟩ := h.respond_ok hdh r.ephemeral
    cases hresp.symm.trans hok
  | outbound h => exact .inl ⟨filterMap_sendSealed S (fun _ _ => rfl) _ _, PeerTable.map_update _ rfl⟩

/-- A stored time bounds the timestamp of an acceptance. -/
def Bounded (times : List (BitVec 64)) (a : Acceptance β) : Prop :=
  ∃ last, times[a.peer]? = some last ∧ last ≠ 0 ∧ a.sec ≤ last.toNat ∧ last.toNat < 2 ^ 63

omit [DecidableEq β] in
/-- A timestamp that is not stale lies past the stored time, if that is not negative: as a `time_t` it is
positive then, so that the comparison is that of the unsigned seconds. -/
theorem lt_of_not_stale {last : BitVec 64} {timestamp : Bytes β 12} (h : ¬ Stale last timestamp) (hne : last ≠ 0)
    (hlast : last.toNat < 2 ^ 63) : last.toNat < (timestampSec timestamp).toNat := by
  have hsle : ¬ (timestampSec timestamp).sle last = true := fun hle => h ⟨hne, hle⟩
  rw [BitVec.sle_iff_toInt_le, BitVec.toInt_eq_toNat_cond, BitVec.toInt_eq_toNat_cond, if_pos (by omega)] at hsle
  split at hsle <;> omega

/-- An initiation accepted comes after every one the stored times bound. -/
theorem InitiationAccepted.before {buf : List β} {init : ConsumedInitiation d.table}
    (h : InitiationAccepted S d buf init) {a : Acceptance β} (ha : Bounded d.times a) :
    a.Before ⟨init.peer, init.timestamp, buf⟩ := by
  intro hpeer
  obtain ⟨last, hget, hne, hle, hsigned⟩ := ha
  obtain ⟨-, -, -, -, -, -, hfresh, -⟩ := handshakeConsumeInitiation_eq_ok.mp h.consume
  have hlast : (d.table.peers.get init.peer).lastHandshakeTime = last := by
    rw [hpeer, Daemon.times, List.getElem?_map, List.getElem?_eq_getElem init.peer.isLt, Option.map_some] at hget
    exact Option.some.inj hget
  rw [hlast] at hfresh
  exact Nat.lt_of_le_of_lt hle (lt_of_not_stale hfresh hne hsigned)

/-! ### Runs -/

/-- The invariant: what was accepted so far and the state, in a run from `d₀`. -/
structure TimeInv (S : Sodium β) (d₀ : Daemon β) (trace : List (Effect β)) (d : Daemon β) : Prop where
  /-- The keys of the host are those of the start. -/
  static : d.staticPriv = d₀.staticPriv ∧ d.staticPub = d₀.staticPub
  /-- So is the configuration of the peers. -/
  config : d.table.peers.map Peer.config = d₀.table.peers.map Peer.config
  /-- What was accepted is what its datagram opens to. -/
  opens : ∀ a ∈ acceptances trace, OpensTo S d₀ a
  /-- The stored times bound the timestamps accepted. -/
  bounded : ∀ a ∈ acceptances trace, Bounded d.times a
  /-- The timestamps of each peer increase. -/
  increasing : (acceptances trace).Pairwise Acceptance.Before

/-- **One step keeps the invariant**, if the clock is ahead. -/
theorem timeInv_step (hdh : S.DhByPoint) (h : StepCase S d ev d' effects) (hclock : ClockAhead S d ev)
    (hinv : TimeInv S d₀ trace d) : TimeInv S d₀ (trace ++ effects) d' := by
  have hstatic : d'.staticPriv = d₀.staticPriv ∧ d'.staticPub = d₀.staticPub :=
    ⟨h.static.1.trans hinv.static.1, h.static.2.trans hinv.static.2⟩
  have hcfg := h.config.trans hinv.config
  rcases h.accepts hdh with ⟨hacc, htimes⟩ | ⟨r, init, rfl, haccept, hacc, htimes⟩
  · have htrace : acceptances (trace ++ effects) = acceptances trace := by
      rw [acceptances_append, hacc, List.append_nil]
    exact ⟨hstatic, hcfg, htrace ▸ hinv.opens, htrace ▸ htimes ▸ hinv.bounded, htrace ▸ hinv.increasing⟩
  · have hbefore : ∀ a ∈ acceptances trace, a.Before ⟨init.peer, init.timestamp, r.datagram.take 2048⟩ :=
      fun a ha => haccept.before (hinv.bounded a ha)
    obtain ⟨hne, hle, hsigned⟩ := hclock init haccept.consume
    have hnow : d'.times[(init.peer : ℕ)]? = some r.now' := by
      rw [htimes, List.getElem?_set_self (by rw [Daemon.times, List.length_map]; exact init.peer.isLt)]
    refine ⟨hstatic, hcfg, ?_, ?_, ?_⟩ <;> rw [acceptances_append, hacc]
    · intro a ha
      rcases List.mem_append.mp ha with ha | ha
      · exact hinv.opens a ha
      · rw [List.mem_singleton.mp ha]
        exact haccept.opensTo hinv.static hinv.config
    · intro a ha
      rcases List.mem_append.mp ha with ha | ha
      · by_cases hpeer : a.peer = init.peer
        · exact ⟨r.now', hpeer ▸ hnow, hne, (hbefore a ha hpeer).le.trans hle, hsigned⟩
        · obtain ⟨last, hget, hlast⟩ := hinv.bounded a ha
          exact ⟨last, by rw [htimes, List.getElem?_set_ne (Ne.symm hpeer)]; exact hget, hlast⟩
      · rw [List.mem_singleton.mp ha]
        exact ⟨r.now', hnow, hne, hle, hsigned⟩
    · refine List.pairwise_append.mpr ⟨hinv.increasing, List.pairwise_singleton _ _, fun a ha b hb => ?_⟩
      rw [List.mem_singleton.mp hb]
      exact hbefore a ha

/-- **Initiations are accepted in order.** In every run whose steps all find the clock ahead of what they
accept, the unsigned seconds of the initiations accepted for one peer increase, and no datagram is accepted
twice. -/
theorem initiations_increasing (S : Sodium β) (hdh : S.DhByPoint) (d : Daemon β) (events : List (Event β))
    (hclock : Machine.Along (step S) (fun _ d ev => ClockAhead S d ev) [] d events) :
    (acceptances (runLoop S d events).2).Pairwise Acceptance.Before ∧
      ((acceptances (runLoop S d events).2).map Acceptance.datagram).Nodup := by
  have hinv : TimeInv S d (runLoop S d events).2 (runLoop S d events).1 :=
    Machine.run_invariant (step S) (I := TimeInv S d)
      (fun trace d' ev hclock hinv => timeInv_step hdh (step_cases S d' ev) hclock hinv) hclock
      ⟨⟨rfl, rfl⟩, rfl, by simp [acceptances], by simp [acceptances], List.Pairwise.nil⟩
  refine ⟨hinv.increasing, List.pairwise_map.mpr (hinv.increasing.imp_of_mem fun ha hb hbefore heq => ?_)⟩
  obtain ⟨hpeer, hts⟩ := (hinv.opens _ ha).unique (hinv.opens _ hb) heq
  have hlt := hbefore hpeer
  rw [Acceptance.sec, hts] at hlt
  exact Nat.lt_irrefl _ hlt

/-- A run of the toy daemon with its clock ahead: an initiation, its replay, and a later one. -/
def toyClockAhead : List (Event (BitVec 8)) :=
  [toyRecv (toyInitiation 7 11 1000) 13 1500, toyRecv (toyInitiation 7 11 1000) 17 1600,
    toyRecv (toyInitiation 8 19 2000) 17 2500]

theorem initiations_increasing_toy :
    (acceptances (runLoop toySodium toyDaemon toyClockAhead).2).map Acceptance.sec = [1000, 2000] ∧
      (acceptances (runLoop toySodium toyDaemon toyClockAhead).2).Pairwise Acceptance.Before ∧
      ((acceptances (runLoop toySodium toyDaemon toyClockAhead).2).map Acceptance.datagram).Nodup :=
  ⟨by decide +kernel, initiations_increasing toySodium toySodium_dhByPoint toyDaemon toyClockAhead (by decide +kernel)⟩

/-- A run of the toy daemon with its clock behind: an initiation and its replay. -/
def toyClockBehind : List (Event (BitVec 8)) :=
  [toyRecv (toyInitiation 7 11 1000) 13 500, toyRecv (toyInitiation 7 11 1000) 17 500]

/-- **An initiation is accepted twice**, and installs a session each time. -/
theorem initiation_replay :
    ¬ (acceptances (runLoop toySodium toyDaemon toyClockBehind).2).Pairwise Acceptance.Before ∧
      ¬ ((acceptances (runLoop toySodium toyDaemon toyClockBehind).2).map Acceptance.datagram).Nodup ∧
      (runLoop toySodium toyDaemon toyClockBehind).1.table.peers.map (fun p =>
        (p.previousSession.localIndex, p.currentSession.localIndex)) = [(1, 2)] := by
  decide +kernel

end VpnTunnel
