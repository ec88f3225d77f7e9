import VpnTunnel.Registration
import VpnTunnel.ToySodium

/-!
# The lifecycle of sessions

A peer has two sessions, and `src/peer.h` four states for each:

    SESSION_STATE_NONE = 0, SESSION_STATE_HANDSHAKING, SESSION_STATE_ESTABLISHED, SESSION_STATE_REKEYING

This module says which of them occur, and what is in the two sessions of a peer at any time: over whole runs of the
event loop, from any table that was built by registering peers.

## The argument

A session is only ever written whole, by `peer_init_session`, or in its counter and its filter, which needs it to be
established. So what is in the two sessions can be read off the list of sessions that were installed for the peer
(`Peer.Lives`): the last one and the one before it, each with its own counter and filter; or nothing, all zero, when
there are not that many.

## What is proved

* `sessions_history` — the two sessions of a peer are the last two that were installed for it.
* `Daemon.Lives.destroy` — `peer_destroy_session`, which does nothing in `SESSION_STATE_NONE`, clears every session
  when the daemon shuts down: `peer_table_destroy` does not have to rely on its final `memset`.
-/

namespace VpnTunnel

open Octets

variable {β : Type}

/-- The sessions installed for a peer. -/
def installedFor (i : ℕ) (trace : List (Effect β)) : List (Session β) :=
  trace.filterMap fun
    | .install j s => if j = i then some s else none
    | _ => none

theorem installedFor_append (i : ℕ) (trace effects : List (Effect β)) :
    installedFor i (trace ++ effects) = installedFor i trace ++ installedFor i effects :=
  List.filterMap_append

/-- What the use of a session does not change: its indices, its keys, its state and its time. -/
def Session.base (s : Session β) : Session β := { s with sendingCounter := 0, replayFilter := replayInit }

variable [Octet β]

/-- A session is one that was installed, with what has become of its counter and filter; or none was, and it is
cleared. -/
def Session.LifeOf (s : Session β) : Option (Session β) → Prop
  | none => s = Session.zero
  | some s₀ => s.base = s₀ ∧ s₀.state = .established

/-- The two sessions of a peer are the last two of a list. -/
structure Peer.Lives (p : Peer β) (installed : List (Session β)) : Prop where
  /-- The current one. -/
  current : p.currentSession.LifeOf installed.getLast?
  /-- The previous one. -/
  previous : p.previousSession.LifeOf installed.dropLast.getLast?

section

variable {p p' : Peer β} {installed : List (Session β)} {s s' : Session β}

theorem Session.LifeOf.state {life : Option (Session β)} (h : s.LifeOf life) :
    s.state = if life.isSome then .established else .none := by
  cases life with
  | none => rw [h]; rfl
  | some s₀ =>
    obtain ⟨rfl, hstate⟩ := h
    exact hstate

/-- The use of a session in use does not change whose life it is. -/
theorem Session.LifeOf.use {life : Option (Session β)} (h : s.LifeOf life) (hest : s.state = .established)
    (hbase : s'.base = s.base) : s'.LifeOf life := by
  cases life with
  | none =>
    rw [h] at hest
    cases hest
  | some s₀ => exact ⟨hbase.trans h.1, h.2⟩

theorem Peer.Lives.state (h : p.Lives installed) (slot : Slot) :
    (p.session slot).state = .none ∨ (p.session slot).state = .established := by
  cases slot with
  | current =>
    have hstate := h.current.state
    split at hstate
    exacts [.inr hstate, .inl hstate]
  | previous =>
    have hstate := h.previous.state
    split at hstate
    exacts [.inr hstate, .inl hstate]

/-- A slot of a peer was used. -/
theorem Peer.Lives.use (h : p.Lives installed) {slot : Slot} (hest : (p.session slot).state = .established)
    (hbase : (p'.session slot).base = (p.session slot).base)
    (hother : ∀ slot', slot' ≠ slot → p'.session slot' = p.session slot') : p'.Lives installed := by
  cases slot with
  | current =>
    have hprevious : p'.previousSession = p.previousSession := hother .previous (by decide)
    exact ⟨h.current.use hest hbase, hprevious ▸ h.previous⟩
  | previous =>
    have hcurrent : p'.currentSession = p.currentSession := hother .current (by decide)
    exact ⟨hcurrent ▸ h.current, h.previous.use hest hbase⟩

/-- A session is installed: the current one, if there is one, becomes the previous one. -/
theorem Peer.Lives.install (h : p.Lives installed) (hcurrent : p'.currentSession = s) (hbase : s.base = s)
    (hstate : s.state = .established) (hprevious : p'.previousSession =
      if p.currentSession.state = .established then p.currentSession else p.previousSession) :
    p'.Lives (installed ++ [s]) := by
  have hlast : (installed ++ [s]).getLast? = some s := List.getLast?_concat
  have hfront : (installed ++ [s]).dropLast = installed := List.dropLast_concat
  constructor
  · rw [hcurrent, hlast]
    exact ⟨hbase, hstate⟩
  · rw [hprevious, hfront]
    have hlife := h.current
    have hstates := hlife.state
    cases hinstalled : installed.getLast? with
    | none =>
      obtain rfl := List.getLast?_eq_none_iff.mp hinstalled
      have hnone : p.currentSession.state ≠ .established := fun hest => nomatch hest.symm.trans hstates
      rw [if_neg hnone]
      exact h.previous
    | some s₀ =>
      rw [hinstalled] at hlife hstates
      have hest : p.currentSession.state = .established := hstates
      rw [if_pos hest]
      exact hlife

end

/-! ### Runs -/

section

variable [DecidableEq β] {S : Sodium β} {d d' : Daemon β} {ev : Event β} {effects trace : List (Effect β)}

/-- The sessions of every peer are the last two that were installed for it. -/
def Daemon.Lives (d : Daemon β) (trace : List (Effect β)) : Prop :=
  ∀ (i : ℕ) (p : Peer β), d.table.peers[i]? = some p → p.Lives (installedFor i trace)

omit [DecidableEq β] in
/-- One peer was written. -/
theorem Daemon.Lives.update (h : d.Lives trace) {j : Fin d.table.peers.length} {q : Peer β} {t : PeerTable β}
    (ht : t.peers = d.table.peers.set j q) {effects : List (Effect β)}
    (hj : (d.table.peers.get j).Lives (installedFor j trace) → q.Lives (installedFor j (trace ++ effects)))
    (hother : ∀ i ≠ (j : ℕ), installedFor i effects = []) :
    Daemon.Lives { d with table := t } (trace ++ effects) := by
  intro i p hp
  rw [ht, List.getElem?_set] at hp
  split at hp
  · next hij =>
    subst hij
    rw [if_pos j.isLt] at hp
    obtain rfl := Option.some.inj hp
    exact hj (h _ _ (by simp))
  · next hij =>
    rw [installedFor_append, hother i (Ne.symm hij), List.append_nil]
    exact h i p hp

/-- **One step keeps it so.** -/
theorem StepCase.lives (h : StepCase S d ev d' effects) (hinv : d.Lives trace) : d'.Lives (trace ++ effects) := by
  cases h with
  | idle =>
    rw [List.append_nil]
    exact hinv
  | @data r parsed j slot plain hacc =>
    have hnone : ∀ i, installedFor i (deliver d.tun j (d.table.peers.get j) ((d.table.peers.get j).session slot).recvKey
        parsed.counter plain.toList) = [] := fun i => filterMap_deliver fun _ _ _ _ => rfl
    refine hinv.update rfl (fun hlives => ?_) fun i _ => hnone i
    rw [installedFor_append, hnone, List.append_nil]
    exact hlives.use (peerFindByIndex_eq_some hacc.find).1 (by rw [Peer.session_received]; rfl)
      fun _ hne => Peer.session_received_of_ne hne
  | @initiation r init resp hacc hresp =>
    have hinstalled : ∀ i, installedFor i [.accept init.peer init.timestamp (r.datagram.take 2048),
        .install init.peer (d.newSession init resp r.now), .send r.src resp.packet] =
          if (init.peer : ℕ) = i then [d.newSession init resp r.now] else [] := by
      intro i
      by_cases hi : (init.peer : ℕ) = i <;> simp [installedFor, hi]
    refine hinv.update (t := d.table.takeIndex.update init.peer (d.rekeyed init resp r)) rfl (fun hlives => ?_)
      fun i hi => by rw [hinstalled, if_neg (Ne.symm hi)]
    rw [installedFor_append, hinstalled, if_pos rfl]
    refine hlives.install Daemon.current_rekeyed rfl rfl ?_
    rw [Daemon.rekeyed, peerUpdateEndpoint_fst, peerInitSession_eq]
  | unanswered hacc hresp =>
    intro i p hp
    rw [installedFor_append]
    exact (List.append_nil (installedFor i trace)).symm ▸ hinv i p hp
  | @outbound packet j hroute =>
    have hnone : ∀ i, installedFor i (.encrypt (d.table.peers.get j).currentSession.sendKey
        (vpnCryptoFormatNonce (d.table.peers.get j).currentSession.sendingCounter) (packet.take 2048) ::
          sendSealed S (d.table.peers.get j) (packet.take 2048)) = [] :=
      fun i => filterMap_sendSealed S (fun _ _ => rfl) _ _
    refine hinv.update rfl (fun hlives => ?_) fun i _ => hnone i
    rw [installedFor_append, hnone, List.append_nil]
    have hest : ((d.table.peers.get j).session .current).state = .established := hroute.established
    exact hlives.use hest rfl fun _ hne => Peer.session_counted_of_ne hne

theorem lives_run (hd : d.Lives []) (events : List (Event β)) :
    (runLoop S d events).1.Lives (runLoop S d events).2 :=
  Machine.run_invariant_of_step (step S) (I := fun trace d => d.Lives trace)
    (fun _ d ev h => (step_cases S d ev).lives h) events hd

end

/-! ### The start -/

/-- The call registers a peer, or changes one that has no session: no call that installs or destroys a session. -/
def TableCall.registers : TableCall β → Bool
  | .add .. | .addAllowedIp .. | .updateEndpoint .. => true
  | .initSession .. | .destroySession .. => false

/-- A peer has no session. -/
def Peer.Fresh (p : Peer β) : Prop := p.currentSession = Session.zero ∧ p.previousSession = Session.zero

theorem Peer.Fresh.lives {p : Peer β} (h : p.Fresh) : p.Lives [] := ⟨h.1, h.2⟩

/-- Peers without sessions, before anything is installed. -/
theorem lives_of_fresh {d : Daemon β} (h : ∀ p ∈ d.table.peers, p.Fresh) : d.Lives [] :=
  fun _ p hp => (h p (List.mem_of_getElem? hp)).lives

theorem PeerTable.fresh_modify {t : PeerTable β} {i : ℕ} {f : Peer β → Peer β} (ht : ∀ p ∈ t.peers, p.Fresh)
    (hf : ∀ p, p.Fresh → (f p).Fresh) : ∀ p ∈ (t.modify i f).peers, p.Fresh := by
  unfold PeerTable.modify
  split
  · next hi =>
    intro p hp
    rcases List.mem_or_eq_of_mem_set hp with hp | rfl
    · exact ht p hp
    · exact hf _ (ht _ (List.get_mem t.peers ⟨i, hi⟩))
  · exact ht

variable [DecidableEq β]

theorem fresh_callStep {t : PeerTable β} {call : TableCall β} (hcall : call.registers = true)
    (ht : ∀ p ∈ t.peers, p.Fresh) : ∀ p ∈ (callStep t call).1.peers, p.Fresh := by
  cases call with
  | add publicKey initialEndpoint =>
    rcases peerAdd_cases t publicKey initialEndpoint with ⟨-, hnone⟩ | ⟨-, -, hpeers, -⟩
    · rw [callStep, hnone]
      exact ht
    · intro p hp
      rw [callStep, hpeers, List.mem_append, List.mem_singleton] at hp
      rcases hp with hp | rfl
      · exact ht p hp
      · exact ⟨rfl, rfl⟩
  | addAllowedIp i cidrStr =>
    refine PeerTable.fresh_modify ht fun p hp => ?_
    unfold peerAddAllowedIp
    split
    · exact hp
    · split <;> exact hp
  | updateEndpoint i newEp =>
    refine PeerTable.fresh_modify ht fun p hp => ?_
    rw [peerUpdateEndpoint_fst]
    exact hp
  | initSession => cases hcall
  | destroySession => cases hcall

/-- A table that peers were registered in has no session. -/
theorem fresh_tableAfter {calls : List (TableCall β)} (hcalls : ∀ call ∈ calls, call.registers = true) :
    ∀ p ∈ (tableAfter calls).1.peers, p.Fresh :=
  Machine.run_invariant callStep (G := fun _ _ call => call.registers = true) (I := fun _ t => ∀ p ∈ t.peers, p.Fresh)
    (fun _ _ _ hcall ht => fresh_callStep hcall ht)
    ((Machine.along_iff callStep).mpr fun pre call post heq => hcalls call (by simp [heq])) (fun _ => nofun)

/-- The daemon, started with such a table. -/
theorem lives_start (S : Sodium β) {calls : List (TableCall β)} (hcalls : ∀ call ∈ calls, call.registers = true)
    {d : Daemon β} (hd : d.table = (tableAfter calls).1) (events : List (Event β)) :
    (runLoop S d events).1.Lives (runLoop S d events).2 :=
  lives_run (lives_of_fresh (hd ▸ fresh_tableAfter hcalls)) events

/-! ### The results -/

/-- **The sessions of a peer are the last two installed for it.** Register peers, and let the daemon run: the current
session of a peer is the one that was last installed for it, the previous session the one installed before that one,
and a session that was never installed is clear. `SESSION_STATE_HANDSHAKING` and `SESSION_STATE_REKEYING` never occur,
and there is no previous session without a current one. -/
theorem sessions_history (S : Sodium β) (calls : List (TableCall β)) (hcalls : ∀ call ∈ calls, call.registers = true)
    (d : Daemon β) (hd : d.table = (tableAfter calls).1) (events : List (Event β)) :
    (∀ (i : ℕ) (p : Peer β), (runLoop S d events).1.table.peers[i]? = some p →
      p.Lives (installedFor i (runLoop S d events).2)) ∧
    ∀ p ∈ (runLoop S d events).1.table.peers,
      (∀ slot, (p.session slot).state = .none ∨ (p.session slot).state = .established) ∧
      (p.previousSession.state = .established → p.currentSession.state = .established) := by
  have hlives := lives_start S hcalls hd events
  refine ⟨hlives, fun p hp => ?_⟩
  obtain ⟨i, hi⟩ := List.mem_iff_getElem?.mp hp
  have hp := hlives i p hi
  refine ⟨fun slot => hp.state slot, fun hprevious => ?_⟩
  rw [hp.current.state]
  rw [hp.previous.state] at hprevious
  cases hinstalled : installedFor i (runLoop S d events).2 with
  | nil =>
    rw [hinstalled] at hprevious
    cases hprevious
  | cons s installed => simp

/-- The peer of the toy daemon, registered. -/
def toyRegistration : List (TableCall (BitVec 8)) :=
  [.add toyPeer.publicKey none, .addAllowedIp 0 (CString.ofText "0.0.0.0/0")]

theorem registers_toyRegistration : ∀ call ∈ toyRegistration, call.registers = true := by
  simp [toyRegistration, TableCall.registers]

/-- The toy daemon, started with it. -/
def toyStarted : Daemon (BitVec 8) := { toyDaemon with table := (tableAfter toyRegistration).1 }

/-- It shakes hands twice. -/
def toyTwice : List (Event (BitVec 8)) :=
  [toyRecv (toyInitiation 7 11 1000) 13 500, toyRecv (toyInitiation 8 19 2000) 17 503]

/-- Two sessions are installed for it in two handshakes, and they are its sessions. -/
theorem sessions_history_toy : (installedFor 0 (runLoop toySodium toyStarted toyTwice).2).length = 2 ∧
    ∀ p, (runLoop toySodium toyStarted toyTwice).1.table.peers[0]? = some p →
      p.Lives (installedFor 0 (runLoop toySodium toyStarted toyTwice).2) := by
  have hinstalled : (installedFor 0 (runLoop toySodium toyStarted toyTwice).2).length = 2 := by
    decide +kernel
  exact ⟨hinstalled,
    (sessions_history toySodium toyRegistration registers_toyRegistration toyStarted rfl toyTwice).1 0⟩

/-- What the loop of `peer_table_destroy` leaves of the table, before the `memset`. -/
def destroySessions (t : PeerTable β) : List (Peer β) :=
  t.peers.map fun p =>
    { p with
      currentSession := peerDestroySession p.currentSession
      previousSession := peerDestroySession p.previousSession }

omit [DecidableEq β] in
theorem Session.LifeOf.destroy {s : Session β} {life : Option (Session β)} (h : s.LifeOf life) :
    peerDestroySession s = Session.zero := by
  unfold peerDestroySession
  split
  · rfl
  · next hnone =>
    rw [ne_eq, not_not, h.state] at hnone
    cases life with
    | none => exact h
    | some s₀ => cases hnone

omit [DecidableEq β] in
/-- **Shutting down clears every session**, those that `peer_destroy_session` takes to be unused included. -/
theorem Daemon.Lives.destroy {d : Daemon β} {trace : List (Effect β)} (h : d.Lives trace) :
    ∀ p ∈ destroySessions d.table, p.Fresh := by
  intro p hp
  obtain ⟨q, hq, rfl⟩ := List.mem_map.mp hp
  obtain ⟨i, hi⟩ := List.mem_iff_getElem?.mp hq
  exact ⟨(h i q hi).current.destroy, (h i q hi).previous.destroy⟩

end VpnTunnel
