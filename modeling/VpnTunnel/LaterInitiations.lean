import VpnTunnel.HonestHandshake
import VpnTunnel.InitiationReplay

/-!
# Later initiations

An initiator that is not disturbed starts one handshake after another, its clock going forward. This module
asks whether the responder accepts all of them.

## The model

An arrival (`Arrival`) is a datagram that the initiator made with `handshake_create_initiation` when its clock
showed `tvSec` and `tvNsec`, with what the responder then passes to `peer_init_session`: two indices, two keys
and the readings of its own clock, all of them arbitrary. `respondStep` is `handshake_consume_initiation`
followed, if it succeeds, by `peer_init_session`.

## The argument

What an arrival is compared with is the reading of the responder's clock at the handshake before, and of the
12 octets of time that were sent only the seconds are compared. So a later time is refused when the
responder's clock is ahead of it, and when both handshakes fall into one second. Nothing else refuses an
honest initiation.

## What is proved

* `handshakeConsumeInitiation_arrival` — one honest initiation is accepted exactly when it is in time.
* `later_initiations_accepted_iff` — all of them are, exactly when each is in time for what the one before
  has stored.
* `later_initiation_refused` — two initiations of one second, the second of which is refused.
-/

namespace VpnTunnel

open Octets

variable {β : Type} [Octet β] {S : Sodium β} {si sr : Bytes β 32}

/-- An initiation of the host with private key `si` that arrives at the host with private key `sr`, as it
was sent. -/
structure Arrival (S : Sodium β) (si sr : Bytes β 32) where
  /-- The seconds of the initiator's clock. -/
  tvSec : BitVec 64
  /-- The nanoseconds of the initiator's clock. -/
  tvNsec : BitVec 64
  /-- The datagram. -/
  datagram : List β
  /-- The initiator made it at that time. -/
  created : ∃ maxLen idx ei st, handshakeCreateInitiation S maxLen si (S.scalarmultBase si) (S.scalarmultBase sr)
    idx ei tvSec tvNsec = .ok (datagram, st)
  /-- The responder's index of the session. -/
  localIdx : BitVec 32
  /-- The initiator's index of the session. -/
  peerIdx : BitVec 32
  /-- The key of outgoing packets. -/
  sendKey : Bytes β 32
  /-- The key of incoming packets. -/
  recvKey : Bytes β 32
  /-- The responder's clock when the session is set up. -/
  now : BitVec 64
  /-- The responder's clock when the handshake time is stored. -/
  now' : BitVec 64

/-- The clock readings of two arrivals, seconds and nanoseconds compared in this order, increase. -/
def Arrival.Before (a b : Arrival S si sr) : Prop :=
  a.tvSec.toInt < b.tvSec.toInt ∨ a.tvSec = b.tvSec ∧ a.tvNsec.toInt < b.tvNsec.toInt

/-- The responder takes an arrival: it puts out the peer for which it is accepted, or that it is refused. -/
def respondStep [DecidableEq β] (t : PeerTable β) (a : Arrival S si sr) : PeerTable β × List (Option ℕ) :=
  match handshakeConsumeInitiation S a.datagram sr (S.scalarmultBase sr) t with
  | .error _ => (t, [none])
  | .ok init =>
    (t.update init.peer
      (peerInitSession (t.peers.get init.peer) a.localIdx a.peerIdx a.sendKey a.recvKey a.now a.now'), [some init.peer])

/-- Each arrival is in time for what the one before has stored, the first one for `last`. -/
def AllInTime : BitVec 64 → List (Arrival S si sr) → Prop
  | _, [] => True
  | last, a :: as => InTime last a.tvSec ∧ AllInTime a.now' as

section

variable [DecidableEq β] {t : PeerTable β} {i : Fin t.peers.length}

/-- **One honest initiation is accepted exactly when it is in time**, and for the peer that sent it. -/
theorem handshakeConsumeInitiation_arrival (hS : S.Correct) (a : Arrival S si sr)
    (hfind : peerFindByPubkey t (S.scalarmultBase si) = some i) :
    (∃ init, handshakeConsumeInitiation S a.datagram sr (S.scalarmultBase sr) t = .ok init ∧ init.peer = i) ∧
        InTime (t.peers.get i).lastHandshakeTime a.tvSec ∨
      (∃ e, handshakeConsumeInitiation S a.datagram sr (S.scalarmultBase sr) t = .error e) ∧
        ¬ InTime (t.peers.get i).lastHandshakeTime a.tvSec := by
  obtain ⟨maxLen, idx, ei, st, hcreate⟩ := a.created
  obtain ⟨-, z₁, z₂, h₁, h₂, msg, hmsg, hwire, -⟩ := handshakeCreateInitiation_eq_ok.mp hcreate
  rw [hwire]
  by_cases hfresh : InTime (t.peers.get i).lastHandshakeTime a.tvSec
  · exact .inl ⟨⟨_, handshakeConsumeInitiation_honest hS hfind hfresh h₁ h₂ msg hmsg, rfl⟩, hfresh⟩
  · refine .inr ⟨?_, hfresh⟩
    cases hconsume : handshakeConsumeInitiation S msg.wire sr (S.scalarmultBase sr) t with
    | error e => exact ⟨e, rfl⟩
    | ok init =>
      -- it opens to what was sealed, so that the time compared is the one that was sent
      exfalso
      obtain ⟨hparse, z₁', k, z₂', hopens, hfind', hstale, -⟩ := handshakeConsumeInitiation_eq_ok.mp hconsume
      rw [packetParseHandshakeInit_wire] at hparse
      rw [hS.dh_comm] at h₁ h₂
      rw [← Except.ok.inj hparse, hmsg] at hopens
      obtain ⟨rfl, hts⟩ := hopens.unique (.initiationMsg hS h₁ h₂)
      cases hfind.symm.trans hfind'
      rw [hts] at hstale
      exact hfresh (not_stale_iff.mp hstale)

/-- The initiator is peer `i`, and `last` is the time stored for it. -/
def KnownAs (t : PeerTable β) (publicKey : Bytes β 32) (i : ℕ) (last : BitVec 64) : Prop :=
  ∃ j, peerFindByPubkey t publicKey = some j ∧ (j : ℕ) = i ∧ (t.peers.get j).lastHandshakeTime = last

omit [Octet β] in
/-- After the session of a peer was set up it is still that peer, with another time. -/
theorem KnownAs.update {publicKey : Bytes β 32} {p : Peer β}
    (hfind : peerFindByPubkey t publicKey = some i) (hconfig : p.config = (t.peers.get i).config) :
    KnownAs (t.update i p) publicKey i p.lastHandshakeTime := by
  have hmap := peerFindByPubkey_congr (PeerTable.map_update Peer.config hconfig) publicKey
  rw [hfind, Option.map_some] at hmap
  obtain ⟨j, hj, hval⟩ := Option.map_eq_some_iff.mp hmap
  have hget : (t.update i p).peers.get j = p := (List.getElem_set _).trans (if_pos hval.symm)
  exact ⟨j, hj, hval, by rw [hget]⟩

/-- One step: an arrival in time is accepted and its time of arrival stored, one that is not is refused. -/
theorem respondStep_cases (hS : S.Correct) (a : Arrival S si sr) {k : ℕ} {last : BitVec 64}
    (hknown : KnownAs t (S.scalarmultBase si) k last) :
    (InTime last a.tvSec ∧ (respondStep t a).2 = [some k] ∧
      KnownAs (respondStep t a).1 (S.scalarmultBase si) k a.now') ∨
    (¬ InTime last a.tvSec ∧ (respondStep t a).2 = [none]) := by
  obtain ⟨i, hfind, rfl, rfl⟩ := hknown
  rcases handshakeConsumeInitiation_arrival hS a hfind with ⟨⟨init, hok, rfl⟩, hfresh⟩ | ⟨⟨e, herr⟩, hlate⟩
  · refine .inl ⟨hfresh, ?_⟩
    simp only [respondStep, hok, true_and]
    have hknown := KnownAs.update (p := peerInitSession (t.peers.get init.peer) a.localIdx a.peerIdx a.sendKey
      a.recvKey a.now a.now') hfind (by rw [peerInitSession_eq]; rfl)
    rwa [peerInitSession_eq] at hknown ⊢
  · refine .inr ⟨hlate, ?_⟩
    simp only [respondStep, herr]

/-- A run accepts all arrivals exactly when they are in time, by induction along the run. -/
theorem run_respondStep_iff (hS : S.Correct) {k : ℕ} (arrivals : List (Arrival S si sr)) {t : PeerTable β}
    {last : BitVec 64} (hknown : KnownAs t (S.scalarmultBase si) k last) :
    (Machine.run respondStep t arrivals).2 = arrivals.map (fun _ => some k) ↔ AllInTime last arrivals := by
  induction arrivals generalizing t last with
  | nil => simp [AllInTime]
  | cons a as ih =>
    rw [Machine.run_cons, List.map_cons, AllInTime]
    rcases respondStep_cases hS a hknown with ⟨hfresh, hout, hnext⟩ | ⟨hlate, hout⟩
    · rw [hout]
      simp only [List.cons_append, List.nil_append, List.cons.injEq, true_and, hfresh]
      exact ih hnext
    · rw [hout]
      simp [hlate]

end

/-- **Every honest initiation is accepted exactly when each is in time**: the responder's clock at the handshake
before, as it was stored, was 0 or behind the initiator's clock now, in whole seconds. That the initiator's
own readings increase does not matter. -/
theorem later_initiations_accepted_iff [DecidableEq β] (S : Sodium β) (hS : S.Correct) (si sr : Bytes β 32)
    (t : PeerTable β) (i : Fin t.peers.length) (hfind : peerFindByPubkey t (S.scalarmultBase si) = some i)
    (arrivals : List (Arrival S si sr)) :
    (Machine.run respondStep t arrivals).2 = arrivals.map (fun _ => some (i : ℕ)) ↔
      AllInTime (t.peers.get i).lastHandshakeTime arrivals :=
  run_respondStep_iff hS arrivals ⟨i, hfind, rfl, rfl⟩

/-- A toy initiation that was made at a time and arrives when the responder's clock shows `now`. -/
def toyArrival (sec nsec now : BitVec 64) : Arrival toySodium toyInitiatorPriv toyResponderPriv where
  tvSec := sec
  tvNsec := nsec
  datagram := (initiationMsg toySodium (toySodium.scalarmultBase toyInitiatorPriv)
    (toySodium.scalarmultBase toyResponderPriv) 7 (toySodium.scalarmultBase toyInitiatorPriv) (timestampBytes sec nsec)
    (toyAdd toyInitiatorPriv toyResponderPriv) (toyAdd toyInitiatorPriv toyResponderPriv)).wire
  created := ⟨148, 7, toyInitiatorPriv, _, handshakeCreateInitiation_eq_ok.mpr
    ⟨le_rfl, _, _, rfl, rfl, _, rfl, rfl, rfl⟩⟩
  localIdx := 1
  peerIdx := 7
  sendKey := toyInitiatorPriv
  recvKey := toyResponderPriv
  now := now
  now' := now

/-- Two toy initiations a second apart, between hosts whose clocks agree. -/
theorem later_initiations_accepted_toy :
    (Machine.run respondStep toyDaemon.table [toyArrival 1000 0 1000, toyArrival 1001 0 1001]).2 = [some 0, some 0] :=
  (later_initiations_accepted_iff toySodium toySodium_correct toyInitiatorPriv toyResponderPriv toyDaemon.table
    ⟨0, by decide⟩ (by decide +kernel) [toyArrival 1000 0 1000, toyArrival 1001 0 1001]).mpr
      ⟨.inl rfl, .inr (by decide), trivial⟩

/-- **A later initiation is refused**: the clocks agree, the second initiation is half a second later; and
when the responder's clock is an hour ahead, one that is half an hour later. -/
theorem later_initiation_refused :
    ((toyArrival 1000 0 1000).Before (toyArrival 1000 500000000 1000) ∧
      (Machine.run respondStep toyDaemon.table [toyArrival 1000 0 1000, toyArrival 1000 500000000 1000]).2 =
        [some 0, none]) ∧
    (toyArrival 1000 0 4600).Before (toyArrival 2800 0 6400) ∧
      (Machine.run respondStep toyDaemon.table [toyArrival 1000 0 4600, toyArrival 2800 0 6400]).2 =
        [some 0, none] := by
  refine ⟨⟨.inr ⟨rfl, by decide⟩, by decide +kernel⟩, .inl (by decide), by decide +kernel⟩

end VpnTunnel
