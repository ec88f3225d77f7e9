import VpnTunnel.Daemon
import VpnTunnel.Lib.OneTime

/-!
# Sessions as holders of keys

A session in use holds its two keys, with numbers that may be used once under each: the counters it
accepts under `recv_key`, and the counters it seals under `send_key`. This module puts the sessions in
use into the terms of the library `OneTime`, for any such view of a session and wherever the sessions
are kept, and says what the steps of a host do to its invariant: writing one session advances it, and
installing a session issues a key while other sessions move or vanish.

## What is proved

* `inv_write`, `inv_install` — the two rules.
* `PeerTable.inv_update`, `PeerTable.inv_rekeyed` — what they come to for the daemon's peer table.
-/

namespace VpnTunnel

open Octets OneTime

variable {β κ ν η : Type}

/-- The sessions in use, each at its place, seen as holders. -/
def holders (E : η → Session β → Prop) (view : Session β → Holder κ ν) (a : η) (h : Holder κ ν) : Prop :=
  ∃ s, E a s ∧ h = view s

variable {keys : List κ} {uses new : List (κ × ν)} {view : Session β → Holder κ ν}

section

variable {E E' : η → Session β → Prop} {s₀ s₁ : Session β}

/-- **One session is written**, with its key kept and more numbers spent; what is used is used under its
key, was not spent and is spent now. -/
theorem inv_write (hinv : Inv keys uses (holders E view)) (a₀ : η) (hat : E a₀ s₀)
    (hE : ∀ {a s}, E' a s → (a ≠ a₀ ∧ E a s) ∨ (a = a₀ ∧ s = s₁)) (hkey : (view s₁).key = (view s₀).key)
    (hspent : (view s₀).spent ⊆ (view s₁).spent)
    (huse : ∀ {k n}, (k, n) ∈ new → k = (view s₀).key ∧ n ∉ (view s₀).spent ∧ n ∈ (view s₁).spent)
    (honce : new.Nodup) : Inv keys (uses ++ new) (holders E' view) := by
  have hholder : holders E view a₀ (view s₀) := ⟨s₀, hat, rfl⟩
  refine hinv.advance ?_ (fun hu => ⟨_, _, hholder, (huse hu).1.symm, (huse hu).2.1⟩) honce
  rintro a _ ⟨s, hs, rfl⟩
  rcases hE hs with ⟨hne, hs⟩ | ⟨rfl, rfl⟩
  · -- a session that was not written has another key
    exact ⟨view s, ⟨s, hs, rfl⟩, rfl, subset_rfl,
      fun n hn => absurd (hinv.distinct ⟨s, hs, rfl⟩ hholder (huse hn).1) hne⟩
  · exact ⟨_, hholder, hkey.symm, hspent, fun n hn => (huse hn).2.2⟩

/-- **A session is installed** with a key that was not issued. The other sessions were there, no two at one
place; `origin a b` says that what is at `a` was at `b`. -/
theorem inv_install (hinv : Inv keys uses (holders E view)) (hfresh : (view s₁).key ∉ keys) (a₀ : η)
    (origin : η → η → Prop)
    (hinj : ∀ {a a' b}, origin a b → origin a' b → a = a')
    (hE : ∀ {a s}, E' a s → (a = a₀ ∧ s = s₁) ∨ ∃ b, origin a b ∧ E b s) :
    Inv (keys ++ [(view s₁).key]) uses (holders E' view) := by
  refine hinv.issue hfresh a₀ origin hinj ?_
  rintro a _ ⟨s, hs, rfl⟩
  rcases hE hs with ⟨rfl, rfl⟩ | ⟨b, hb, hs⟩
  · exact .inl ⟨rfl, rfl⟩
  · exact .inr ⟨b, hb, s, hs, rfl⟩

end

/-! ### The sessions of a peer table -/

/-- No session is in use. -/
def PeerTable.NoSessions (t : PeerTable β) : Prop := ∀ i slot s, ¬ t.Established i slot s

theorem PeerTable.noSessions_of_forall {t : PeerTable β} (h : ∀ p ∈ t.peers,
    p.currentSession.state ≠ .established ∧ p.previousSession.state ≠ .established) : t.NoSessions := by
  rintro i slot s ⟨p, hp, rfl, hest⟩
  have hne := h p (List.mem_of_getElem? hp)
  cases slot with
  | current => exact hne.1 hest
  | previous => exact hne.2 hest

/-- The sessions in use, each at its peer and slot, seen as holders. -/
def PeerTable.holders (t : PeerTable β) (view : Session β → Holder κ ν) : ℕ × Slot → Holder κ ν → Prop :=
  VpnTunnel.holders (fun a => t.Established a.1 a.2) view

theorem PeerTable.inv_start {t : PeerTable β} (h : t.NoSessions) :
    Inv [] ([] : List (κ × ν)) (t.holders view) :=
  Inv.start (fun ⟨s, hs, _⟩ => absurd hs (h _ _ s)) (fun ⟨s, hs, _⟩ => absurd hs (h _ _ s))

/-- One session of one peer is written. -/
theorem PeerTable.inv_update {t : PeerTable β} (hinv : Inv keys uses (t.holders view)) {i : Fin t.peers.length}
    {p : Peer β} (slot : Slot) (hother : ∀ slot', slot' ≠ slot → p.session slot' = (t.peers.get i).session slot')
    (hest : ((t.peers.get i).session slot).state = .established)
    (hkey : (view (p.session slot)).key = (view ((t.peers.get i).session slot)).key)
    (hspent : (view ((t.peers.get i).session slot)).spent ⊆ (view (p.session slot)).spent)
    (huse : ∀ {k n}, (k, n) ∈ new → k = (view ((t.peers.get i).session slot)).key ∧
      n ∉ (view ((t.peers.get i).session slot)).spent ∧ n ∈ (view (p.session slot)).spent)
    (honce : new.Nodup) : Inv keys (uses ++ new) ((t.update i p).holders view) := by
  refine inv_write hinv (↑i, slot) (PeerTable.established_get slot hest) ?_ hkey hspent huse honce
  rintro ⟨j, slot'⟩ s hs
  rcases PeerTable.established_update_slot hother hs with ⟨hne, hs⟩ | ⟨rfl, rfl, rfl⟩
  · exact .inl ⟨fun heq => hne ⟨congrArg Prod.fst heq, congrArg Prod.snd heq⟩, hs⟩
  · exact .inr ⟨rfl, rfl⟩

/-- A change of the table that leaves the sessions in use as they are. -/
theorem PeerTable.inv_same {t t' : PeerTable β} (hinv : Inv keys uses (t.holders view))
    (h : t'.Established = t.Established) : Inv keys uses (t'.holders view) := by
  have hsame : t'.holders view = t.holders view := by
    unfold PeerTable.holders
    rw [h]
  rw [hsame]
  exact hinv

/-- An initiation is accepted: the current session of the peer, if it was in use, becomes the previous
one. -/
theorem PeerTable.inv_rekeyed [Octet β] {d : Daemon β} (hinv : Inv keys uses (d.table.holders view))
    {init : ConsumedInitiation d.table} {resp : CreatedResponse β} {r : Recv β}
    (hfresh : (view (d.newSession init resp r.now)).key ∉ keys) :
    Inv (keys ++ [(view (d.newSession init resp r.now)).key]) uses
      ((d.table.takeIndex.update init.peer (d.rekeyed init resp r)).holders view) := by
  refine inv_install hinv hfresh (↑init.peer, Slot.current)
    (fun a b => a.1 = b.1 ∧ (a.1 = init.peer → a.2 = .previous) ∧ (a.1 ≠ init.peer → a.2 = b.2)) ?_ ?_
  · rintro ⟨i, slot⟩ ⟨i', slot'⟩ ⟨j, slot''⟩ ⟨rfl, hsame, hother⟩ ⟨rfl, hsame', hother'⟩
    by_cases hi : i' = init.peer
    · rw [Prod.mk.injEq]
      exact ⟨rfl, (hsame hi).trans (hsame' hi).symm⟩
    · rw [Prod.mk.injEq]
      exact ⟨rfl, (hother hi).trans (hother' hi).symm⟩
  · rintro ⟨j, slot⟩ s hs
    rcases Daemon.established_rekeyed hs with ⟨rfl, rfl, rfl⟩ | ⟨rfl, rfl, slot', hs⟩ | ⟨hj, hs⟩
    · exact .inl ⟨rfl, rfl⟩
    · exact .inr ⟨(_, slot'), ⟨rfl, fun _ => rfl, fun h => absurd rfl h⟩, hs⟩
    · exact .inr ⟨(j, slot), ⟨rfl, fun h => absurd h hj, fun _ => rfl⟩, hs⟩

/-! ### The sessions of one peer -/

/-- The session in use in a slot. -/
def Peer.Established (p : Peer β) (slot : Slot) (s : Session β) : Prop := p.session slot = s ∧ s.state = .established

/-- The sessions in use after one was written. -/
theorem Peer.established_write {p p' : Peer β} {slot : Slot}
    (hother : ∀ slot', slot' ≠ slot → p'.session slot' = p.session slot') {slot' : Slot} {s : Session β}
    (h : p'.Established slot' s) : (slot' ≠ slot ∧ p.Established slot' s) ∨ (slot' = slot ∧ s = p'.session slot) := by
  obtain ⟨rfl, hest⟩ := h
  by_cases hslot : slot' = slot
  · subst hslot
    exact .inr ⟨rfl, rfl⟩
  · exact .inl ⟨hslot, (hother slot' hslot).symm, hest⟩

/-- A rotation issues the key of the new session: the current session, if it was in use, becomes the
previous one. -/
theorem Peer.inv_initSession [Octet β] {p : Peer β} (hinv : Inv keys uses (holders p.Established view))
    {localIdx peerIdx : BitVec 32} {sendKey recvKey : Bytes β 32} {now : BitVec 64} (now' : BitVec 64)
    (hfresh : (view (Session.fresh localIdx peerIdx sendKey recvKey now)).key ∉ keys) :
    Inv (keys ++ [(view (Session.fresh localIdx peerIdx sendKey recvKey now)).key]) uses
      (holders (peerInitSession p localIdx peerIdx sendKey recvKey now now').Established view) := by
  refine inv_install hinv hfresh .current (fun slot _ => slot = .previous) (fun h h' => h.trans h'.symm) ?_
  rintro slot s ⟨rfl, hest⟩
  rcases established_peerInitSession _ _ _ _ _ _ _ hest with ⟨rfl, hnew⟩ | ⟨rfl, slot', hold⟩
  · exact .inl ⟨rfl, hnew⟩
  · exact .inr ⟨slot', rfl, hold.symm, hest⟩

/-- The keys of the sessions in use. -/
def Peer.keysInUse (p : Peer β) (key : Session β → Bytes β 32) : List (Bytes β 32) :=
  ([Slot.current, .previous].filter fun slot => (p.session slot).state = .established).map fun slot =>
    key (p.session slot)

theorem Peer.mem_keysInUse {p : Peer β} {key : Session β → Bytes β 32} {k : Bytes β 32} :
    k ∈ p.keysInUse key ↔ ∃ slot s, p.Established slot s ∧ key s = k := by
  unfold Peer.keysInUse Peer.Established
  rw [List.mem_map]
  constructor
  · rintro ⟨slot, hmem, rfl⟩
    exact ⟨slot, _, ⟨rfl, of_decide_eq_true (List.mem_filter.mp hmem).2⟩, rfl⟩
  · rintro ⟨slot, _, ⟨rfl, hest⟩, rfl⟩
    exact ⟨slot, List.mem_filter.mpr ⟨by cases slot <;> simp, decide_eq_true hest⟩, rfl⟩

/-! ### Two views -/

/-- A session holds its receive key, and has spent the counters its filter refuses. -/
def inboundView (s : Session β) : Holder (Bytes β 32) (BitVec 64) :=
  ⟨s.recvKey, fun c => replayCheck s.replayFilter c = false⟩

/-- A session holds its send key, and has spent the counters it has given out. -/
def outboundView (s : Session β) : Holder (Bytes β 32) (BitVec 64) := ⟨s.sendKey, fun c => c < s.sendingCounter⟩

/-- A counter that is not the last one grows. -/
theorem lt_add_one_of_ne_allOnes {c : BitVec 64} (h : c ≠ BitVec.allOnes 64) : c < c + 1 := by
  have hne : c.toNat ≠ 2 ^ 64 - 1 := fun heq => h (BitVec.eq_of_toNat_eq (by rw [heq, BitVec.toNat_allOnes]))
  have hlt := c.isLt
  have hone : (1 : BitVec 64).toNat = 1 := rfl
  rw [BitVec.lt_def, BitVec.toNat_add, hone]
  omega

end VpnTunnel
