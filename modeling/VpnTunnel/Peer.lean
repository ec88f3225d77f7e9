import VpnTunnel.Config
import VpnTunnel.Lib.Octets
import VpnTunnel.Replay
import VpnTunnel.Routing
import VpnTunnel.Transport

/-!
# Peers and sessions

This module models `src/peer.h` and `src/peer.c`: the table of peers, their AllowedIPs, and the two
sessions of a peer.

"Each active connection maintains a pair of directional 256-bit AEAD keys (`send_key` and
`recv_key`), a monotonic sending counter, and an anti-replay filter." A new session replaces the
current one, which is kept "as previous session for transition".

## The model

The array `peers` with its `peer_count` is a list of at most `VPN_MAX_PEERS` peers, and the address
ranges of a peer a list of at most `VPN_MAX_CIDRS_PER_PEER`; both bounds are fields. A pointer into
the table is an index of the list, and a pointer to a session says which of the peer's two it is
(`Slot`). A call that changes a peer or the table returns it as it is after the call, next to what the
source returns. `time(NULL)` is a parameter; `peer_init_session` reads the clock twice. Names, which are only
logged, and the two packet times, which nothing reads or writes, are left out.

## What is proved

* `peerFindByIndex_eq_some`, `peerFindByPubkey_eq_some`, `peerFindByDestIp_eq_some` — what a lookup
  that succeeds has found, and `PeerTable.update` with its frame lemmas.
* `established_peerInitSession` — the sessions a peer has after a rotation.
-/

namespace VpnTunnel

open Octets

/-- The state of a session, `session_state_t`. -/
inductive SessionState where
  /-- No session. -/
  | none
  /-- A handshake is under way. -/
  | handshaking
  /-- The session is in use. -/
  | established
  /-- The session is being replaced. -/
  | rekeying
  deriving DecidableEq, Repr

/-- A session, `vpn_session_t`. -/
@[ext]
structure Session (β : Type) where
  /-- The index the other side addresses this session by. -/
  localIndex : BitVec 32
  /-- The index of the session at the other side. -/
  peerIndex : BitVec 32
  /-- The state. -/
  state : SessionState
  /-- The key of outgoing packets. -/
  sendKey : Bytes β 32
  /-- The key of incoming packets. -/
  recvKey : Bytes β 32
  /-- The counter of the next outgoing packet. -/
  sendingCounter : BitVec 64
  /-- The counters of the packets received. -/
  replayFilter : ReplayFilter
  /-- When the session was established. -/
  establishedTime : BitVec 64
  deriving DecidableEq

/-- A peer, `vpn_peer_t`. -/
@[ext]
structure Peer (β : Type) where
  /-- The peer's static public key. -/
  publicKey : Bytes β 32
  /-- Where the peer was last heard from. -/
  endpoint : Endpoint
  /-- The addresses the peer may use. -/
  allowedIps : List Cidr
  /-- There is room for 64 ranges. -/
  allowedIps_le : allowedIps.length ≤ 64
  /-- The session in use. -/
  currentSession : Session β
  /-- The session before, kept for packets that are still on their way. -/
  previousSession : Session β
  /-- When the last handshake was completed, by the clock of this host. -/
  lastHandshakeTime : BitVec 64
  deriving DecidableEq

/-- The table of peers, `vpn_peer_table_t`. -/
@[ext]
structure PeerTable (β : Type) where
  /-- The registered peers. -/
  peers : List (Peer β)
  /-- There is room for 256 peers. -/
  peerCount_le : peers.length ≤ 256
  /-- The next index to give to a session. -/
  nextLocalIndex : BitVec 32
  deriving DecidableEq

/-- One of the two sessions of a peer. -/
inductive Slot where
  /-- The current session. -/
  | current
  /-- The previous session. -/
  | previous
  deriving DecidableEq, Repr

variable {β : Type}

/-! ### Sessions -/

/-- The session in a slot. -/
def Peer.session (p : Peer β) : Slot → Session β
  | .current => p.currentSession
  | .previous => p.previousSession

/-- Replace the session in a slot. -/
def Peer.setSession (p : Peer β) (slot : Slot) (s : Session β) : Peer β :=
  match slot with
  | .current => { p with currentSession := s }
  | .previous => { p with previousSession := s }

/-- A cleared session. -/
def Session.zero [Octet β] : Session β :=
  { localIndex := 0
    peerIndex := 0
    state := .none
    sendKey := zeroBytes 32
    recvKey := zeroBytes 32
    sendingCounter := 0
    replayFilter := replayInit
    establishedTime := 0 }

/-- Wipe a session, `peer_destroy_session`. -/
def peerDestroySession [Octet β] (s : Session β) : Session β :=
  if s.state ≠ .none then Session.zero else s

/-- Establish or rotate a session, `peer_init_session`, at clock readings `now` and `now'`. -/
def peerInitSession [Octet β] (p : Peer β) (localIdx peerIdx : BitVec 32) (sendKey recvKey : Bytes β 32)
    (now now' : BitVec 64) : Peer β :=
  let p :=
    if p.currentSession.state = .established then
      let p := { p with previousSession := peerDestroySession p.previousSession }
      { p with previousSession := p.currentSession }
    else p
  { p with
    currentSession :=
      { localIndex := localIdx
        peerIndex := peerIdx
        state := .established
        sendKey := sendKey
        recvKey := recvKey
        sendingCounter := 0
        replayFilter := replayInit
        establishedTime := now }
    lastHandshakeTime := now' }

/-- Move the peer to the endpoint it was heard from, `peer_update_endpoint`; the flag says whether it
roamed. -/
def peerUpdateEndpoint (p : Peer β) (newEp : Endpoint) : Peer β × Bool :=
  if !endpointEqual p.endpoint newEp then ({ p with endpoint := newEp }, true) else (p, false)

/-! ### The table -/

/-- The empty table, `peer_table_init`. Index 0 is reserved. -/
def peerTableInit : PeerTable β := ⟨[], Nat.zero_le _, 1⟩

theorem length_allowedIps_nil_le : ([] : List Cidr).length ≤ 64 := Nat.zero_le 64

/-- A peer as it is registered: cleared, with its key and the endpoint if one is given. -/
def Peer.registered [Octet β] (publicKey : Bytes β 32) (initialEndpoint : Option Endpoint) : Peer β :=
  { publicKey := publicKey
    endpoint := initialEndpoint.getD Endpoint.unset
    allowedIps := []
    allowedIps_le := length_allowedIps_nil_le
    currentSession := Session.zero
    previousSession := Session.zero
    lastHandshakeTime := 0 }

/-- Register a peer, `peer_add`: the table after the call, and the entry of the peer or `NULL`. -/
def peerAdd [Octet β] [DecidableEq β] (t : PeerTable β) (publicKey : Bytes β 32) (initialEndpoint : Option Endpoint) :
    PeerTable β × Option ℕ :=
  if h : t.peers.length ≥ 256 then (t, none)
  else if t.peers.any fun p => p.publicKey = publicKey then (t, none)
  else
    ({ t with
      peers := t.peers ++ [Peer.registered publicKey initialEndpoint]
      peerCount_le := by rw [List.length_append, List.length_singleton]; omega }, some t.peers.length)

/-- Give a peer a range, `peer_add_allowed_ip`: the peer after the call, and what is returned. -/
def peerAddAllowedIp (p : Peer β) (cidrStr : List (BitVec 8)) : Peer β × Except Errno Unit :=
  if h : p.allowedIps.length ≥ 64 then (p, .error .enospc)
  else
    match vpnCidrParse cidrStr with
    | .error rc => (p, .error rc)
    | .ok cidr =>
      ({ p with
        allowedIps := p.allowedIps ++ [cidr]
        allowedIps_le := by rw [List.length_append, List.length_singleton]; omega }, .ok ())

/-- The peer may use the address, `peer_allows_source_ip`. -/
def peerAllowsSourceIp (p : Peer β) (srcIp : BitVec 32) : Bool :=
  p.allowedIps.any fun cidr => vpnCidrMatch cidr srcIp

/-- The peer with a public key, `peer_find_by_pubkey`. -/
def peerFindByPubkey [DecidableEq β] (t : PeerTable β) (publicKey : Bytes β 32) : Option (Fin t.peers.length) :=
  t.peers.findFinIdx? fun p => p.publicKey = publicKey

/-- The session of a peer with a local index: the current one, else the previous one. -/
def Peer.findByIndex (p : Peer β) (receiverIndex : BitVec 32) : Option Slot :=
  if p.currentSession.state = .established ∧ p.currentSession.localIndex = receiverIndex then some .current
  else if p.previousSession.state = .established ∧ p.previousSession.localIndex = receiverIndex then some .previous
  else none

/-- The peer and session with a local index, `peer_find_by_index`. -/
def peerFindByIndex (t : PeerTable β) (receiverIndex : BitVec 32) : Option (Fin t.peers.length × Slot) :=
  if receiverIndex = 0 then none
  else do
    let i ← t.peers.findFinIdx? fun p => (p.findByIndex receiverIndex).isSome
    let slot ← (t.peers.get i).findByIndex receiverIndex
    return (i, slot)

/-- The peer an address is routed to, `peer_find_by_dest_ip`: the "first matching peer in definition
order". -/
def peerFindByDestIp (t : PeerTable β) (destIp : BitVec 32) : Option (Fin t.peers.length) :=
  t.peers.findFinIdx? fun p => peerAllowsSourceIp p destIp

/-- Write a peer back into the table. -/
def PeerTable.update (t : PeerTable β) (i : Fin t.peers.length) (p : Peer β) : PeerTable β :=
  { t with peers := t.peers.set i p, peerCount_le := by rw [List.length_set]; exact t.peerCount_le }

/-! ### What the operations do to a peer -/

section

variable (p : Peer β) (slot : Slot) (s : Session β)

@[simp] theorem Peer.session_setSession_self : (p.setSession slot s).session slot = s := by
  cases slot <;> rfl

theorem Peer.session_setSession_of_ne {slot slot' : Slot} (h : slot' ≠ slot) :
    (p.setSession slot s).session slot' = p.session slot' := by
  cases slot <;> cases slot' <;> first | rfl | exact absurd rfl h

@[simp] theorem Peer.allowedIps_setSession : (p.setSession slot s).allowedIps = p.allowedIps := by
  cases slot <;> rfl

/-- Roaming touches the endpoint only. -/
theorem peerUpdateEndpoint_fst (ep : Endpoint) : (peerUpdateEndpoint p ep).1 =
    { p with endpoint := if endpointEqual p.endpoint ep then p.endpoint else ep } := by
  unfold peerUpdateEndpoint
  cases endpointEqual p.endpoint ep <;> rfl

/-- After it the endpoint is the one the datagram came from, as far as `endpoint_equal` can tell. -/
theorem endpointEqual_peerUpdateEndpoint {ep : Endpoint} (h : ep.addr.isInet = true) :
    endpointEqual (peerUpdateEndpoint p ep).1.endpoint ep = true := by
  rw [peerUpdateEndpoint_fst]
  by_cases heq : endpointEqual p.endpoint ep
  · simp only [heq, if_true]
  · simp only [heq, endpointEqual_self, h, if_false, Bool.false_eq_true]

/-- The session `peer_init_session` installs. -/
def Session.fresh (localIdx peerIdx : BitVec 32) (sendKey recvKey : Bytes β 32) (now : BitVec 64) : Session β :=
  { localIndex := localIdx
    peerIndex := peerIdx
    state := .established
    sendKey := sendKey
    recvKey := recvKey
    sendingCounter := 0
    replayFilter := replayInit
    establishedTime := now }

variable [Octet β] (localIdx peerIdx : BitVec 32) (sendKey recvKey : Bytes β 32) (now now' : BitVec 64)

/-- A rotation touches the two sessions and the handshake time only, and the current session survives
as the previous one. -/
theorem peerInitSession_eq : peerInitSession p localIdx peerIdx sendKey recvKey now now' =
    { p with
      currentSession := Session.fresh localIdx peerIdx sendKey recvKey now
      previousSession :=
        if p.currentSession.state = .established then p.currentSession else p.previousSession
      lastHandshakeTime := now' } := by
  unfold peerInitSession
  split <;> rfl

/-- The sessions in use after a rotation: the new one, and one the peer had. -/
theorem established_peerInitSession {slot : Slot}
    (h : ((peerInitSession p localIdx peerIdx sendKey recvKey now now').session slot).state = .established) :
    (slot = .current ∧ (peerInitSession p localIdx peerIdx sendKey recvKey now now').session slot =
        Session.fresh localIdx peerIdx sendKey recvKey now) ∨
      (slot = .previous ∧ ∃ slot', (peerInitSession p localIdx peerIdx sendKey recvKey now now').session slot =
        p.session slot') := by
  rw [peerInitSession_eq] at h ⊢
  cases slot with
  | current => exact .inl ⟨rfl, rfl⟩
  | previous =>
    refine .inr ⟨rfl, ?_⟩
    by_cases hcur : p.currentSession.state = .established
    · exact ⟨.current, if_pos hcur⟩
    · exact ⟨.previous, if_neg hcur⟩

end

/-! ### What a lookup finds -/

section

variable {t : PeerTable β}

theorem peerFindByPubkey_eq_some [DecidableEq β] {k : Bytes β 32} {i : Fin t.peers.length} :
    peerFindByPubkey t k = some i ↔
      (t.peers.get i).publicKey = k ∧ ∀ j : Fin t.peers.length, j < i → (t.peers.get j).publicKey ≠ k := by
  simp [peerFindByPubkey, List.findFinIdx?_eq_some_iff]

theorem peerFindByPubkey_eq_none [DecidableEq β] {k : Bytes β 32} :
    peerFindByPubkey t k = none ↔ k ∉ t.peers.map Peer.publicKey := by
  simp [peerFindByPubkey, List.findFinIdx?_eq_none_iff]

theorem peerFindByDestIp_eq_some {ip : BitVec 32} {i : Fin t.peers.length} :
    peerFindByDestIp t ip = some i ↔ peerAllowsSourceIp (t.peers.get i) ip = true ∧
      ∀ j : Fin t.peers.length, j < i → peerAllowsSourceIp (t.peers.get j) ip = false := by
  simp [peerFindByDestIp, List.findFinIdx?_eq_some_iff]

/-- The session a peer is found by is in use and has the index. -/
theorem Peer.findByIndex_eq_some {p : Peer β} {idx : BitVec 32} {slot : Slot} (h : p.findByIndex idx = some slot) :
    (p.session slot).state = .established ∧ (p.session slot).localIndex = idx := by
  unfold Peer.findByIndex at h
  split at h
  · next hcur => cases h; exact hcur
  · split at h
    · next hprev => cases h; exact hprev
    · cases h

/-- So is the session the table is searched for. -/
theorem peerFindByIndex_eq_some {idx : BitVec 32} {i : Fin t.peers.length} {slot : Slot}
    (h : peerFindByIndex t idx = some (i, slot)) :
    ((t.peers.get i).session slot).state = .established ∧ ((t.peers.get i).session slot).localIndex = idx := by
  unfold peerFindByIndex at h
  split at h
  · cases h
  · obtain ⟨j, -, hj⟩ := Option.bind_eq_some_iff.mp h
    obtain ⟨slot', hslot, heq⟩ := Option.bind_eq_some_iff.mp hj
    cases heq
    exact Peer.findByIndex_eq_some hslot

/-- A session that is the only one in use with its index is found. -/
theorem peerFindByIndex_of_unique {idx : BitVec 32} (hne : idx ≠ 0) {i : Fin t.peers.length} {slot : Slot}
    (hest : ((t.peers.get i).session slot).state = .established)
    (hidx : ((t.peers.get i).session slot).localIndex = idx)
    (honly : ∀ (j : Fin t.peers.length) slot', ((t.peers.get j).session slot').state = .established →
      ((t.peers.get j).session slot').localIndex = idx → j = i ∧ slot' = slot) :
    peerFindByIndex t idx = some (i, slot) := by
  have hpeer : ((t.peers.get i).findByIndex idx).isSome = true := by
    unfold Peer.findByIndex
    cases slot with
    | current => rw [if_pos ⟨hest, hidx⟩]; rfl
    | previous =>
      split
      · rfl
      · rw [if_pos ⟨hest, hidx⟩]; rfl
  have hsome : ∃ found, peerFindByIndex t idx = some found := by
    have hfind : (t.peers.findFinIdx? fun p => (p.findByIndex idx).isSome).isSome = true := by
      rw [List.isSome_findFinIdx?, List.any_eq_true]
      exact ⟨_, List.get_mem t.peers i, hpeer⟩
    obtain ⟨j, hj⟩ := Option.isSome_iff_exists.mp hfind
    obtain ⟨slot', hslot'⟩ := Option.isSome_iff_exists.mp (List.findFinIdx?_eq_some_iff.mp hj).1
    refine ⟨(j, slot'), ?_⟩
    rw [peerFindByIndex, if_neg hne]
    exact Option.bind_eq_some_iff.mpr ⟨j, hj, Option.bind_eq_some_iff.mpr ⟨slot', hslot', rfl⟩⟩
  obtain ⟨⟨j, slot'⟩, hfound⟩ := hsome
  obtain ⟨hest', hidx'⟩ := peerFindByIndex_eq_some hfound
  obtain ⟨rfl, rfl⟩ := honly j slot' hest' hidx'
  exact hfound

/-- What configuration says of a peer: its key and its ranges. -/
def Peer.config (p : Peer β) : Bytes β 32 × List Cidr := (p.publicKey, p.allowedIps)

/-- Writing a peer back with some of its data unchanged leaves that data of the table. -/
theorem PeerTable.map_update {γ : Type} (f : Peer β → γ) {i : Fin t.peers.length} {p : Peer β}
    (h : f p = f (t.peers.get i)) : (t.update i p).peers.map f = t.peers.map f := by
  have hi : (i : ℕ) < (t.peers.map f).length := by simp
  rw [PeerTable.update, List.map_set, h, List.get_eq_getElem, ← List.getElem_map f (h := hi)]
  exact List.set_getElem_self hi

/-- The sessions in use: the session in slot `slot` of peer `i` is `s`, and it is established. -/
def PeerTable.Established (t : PeerTable β) (i : ℕ) (slot : Slot) (s : Session β) : Prop :=
  ∃ p, t.peers[i]? = some p ∧ p.session slot = s ∧ s.state = .established

/-- The sessions in use after one peer was written. -/
theorem PeerTable.established_update {i : Fin t.peers.length} {p : Peer β} {j : ℕ} {slot : Slot} {s : Session β} :
    (t.update i p).Established j slot s ↔
      (j = i ∧ p.session slot = s ∧ s.state = .established) ∨ (j ≠ i ∧ t.Established j slot s) := by
  unfold PeerTable.Established PeerTable.update
  by_cases hj : j = i
  · subst hj
    simp
  · simp [hj, List.getElem?_set_ne (Ne.symm hj)]

/-- The sessions in use after one session of one peer was written. -/
theorem PeerTable.established_update_slot {i : Fin t.peers.length} {p : Peer β} {slot : Slot}
    (hother : ∀ slot', slot' ≠ slot → p.session slot' = (t.peers.get i).session slot') {j : ℕ} {slot' : Slot}
    {s : Session β} (h : (t.update i p).Established j slot' s) :
    (¬ (j = i ∧ slot' = slot) ∧ t.Established j slot' s) ∨ (j = i ∧ slot' = slot ∧ s = p.session slot) := by
  rcases PeerTable.established_update.mp h with ⟨hj, rfl, hs⟩ | ⟨hj, h⟩
  · by_cases hslot : slot' = slot
    · subst hslot
      exact .inr ⟨hj, rfl, rfl⟩
    · refine .inl ⟨fun hc => hslot hc.2, t.peers.get i, ?_, (hother slot' hslot).symm, hs⟩
      rw [hj, List.get_eq_getElem, List.getElem?_eq_getElem i.isLt]
  · exact .inl ⟨fun hc => hj hc.1, h⟩

theorem PeerTable.established_get {i : Fin t.peers.length} (slot : Slot)
    (h : ((t.peers.get i).session slot).state = .established) :
    t.Established i slot ((t.peers.get i).session slot) :=
  ⟨t.peers.get i, by simp, rfl, h⟩

end

end VpnTunnel
