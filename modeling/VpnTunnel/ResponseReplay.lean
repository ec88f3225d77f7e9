import VpnTunnel.SymbolicSodium
import VpnTunnel.ToySodium

/-!
# Replayed responses

An initiator that has sent an initiation gives the datagrams that arrive to
`handshake_consume_response`, and installs a session with `peer_init_session` when one is accepted. In
between it seals packets, and receives them. This module asks whether a counter is ever used twice
under one send key, and whether a replay filter is ever reset when its key is in use.

## The model

The initiator is a machine over the peer it talks to: `handshake_init_state_t` is passed as `const` and
is a parameter, the same for every datagram. A packet is sealed with the `sending_counter` of the
current session, and a packet that verifies under a session is checked against its filter, both as in
`src/main.c` (which itself never starts a handshake).

## The argument

Nothing marks the init state as used. A response that is delivered again is accepted again and derives
the same keys, and `peer_init_session` sets the counter to 0 and clears the filter. When every accepted
response has another responder ephemeral, on the other hand, the transport keys are new unless the
hash collides, and the sessions hold one-time numbers as in the daemon (`OneTime`). That it does not
collide is asked of the calls made for the accepted responses of the run (`scheduleCalls`), and of no
others, so that it can be asked of a hash of bytes.

## What is proved

* `transportKeys_ephemeral` — where the calls do not collide, either transport key determines the
  responder's ephemeral.
* `response_replay` — a run, without collisions, in which a response is delivered twice: a counter is
  used twice under one key, and a filter is reset that has accepted packets.
* `responses_safe` — in every run whose accepted responses all have new ephemerals, neither happens.
-/

namespace VpnTunnel

open Octets OneTime

variable {β : Type} [Octet β]

/-- What happens at an initiator. -/
inductive InitiatorEvent (β : Type) where
  /-- A datagram arrives and is given to `handshake_consume_response`. -/
  | response (datagram : List β) (now now' : BitVec 64)
  /-- A packet is sealed in the current session. -/
  | encrypt
  /-- A packet with a counter arrives that verifies under the session in a slot. -/
  | data (slot : Slot) (counter : BitVec 64)

/-- What an initiator does. -/
inductive InitiatorEffect (β : Type) where
  /-- `handshake_consume_response` has returned 0 for a datagram. -/
  | accept (datagram : List β)
  /-- `peer_init_session` has installed a session, with counter 0 and a cleared filter. -/
  | install (session : Session β)
  /-- A packet was sealed under a `send_key` and a counter. -/
  | encrypt (key : Bytes β 32) (counter : BitVec 64)
  /-- A packet was accepted under a `recv_key` and a counter. -/
  | receive (key : Bytes β 32) (counter : BitVec 64)

section

variable (S : Sodium β) (myPriv : Bytes β 32) (st : HandshakeInitState β)

/-- One step of the initiator. -/
def initiatorStep (p : Peer β) : InitiatorEvent β → Peer β × List (InitiatorEffect β)
  | .response datagram now now' =>
    match handshakeConsumeResponse S datagram myPriv st with
    | .error _ => (p, [])
    | .ok fin =>
      let p := peerInitSession p st.localIndex fin.peerIndex fin.sendKey fin.recvKey now now'
      (p, [.accept datagram, .install p.currentSession])
  | .encrypt =>
    let session := p.currentSession
    if session.state = .established then
      ({ p with currentSession := { session with sendingCounter := session.sendingCounter + 1 } },
        [.encrypt session.sendKey session.sendingCounter])
    else (p, [])
  | .data slot counter =>
    let session := p.session slot
    if session.state = .established ∧ replayCheck session.replayFilter counter then
      (p.setSession slot { session with replayFilter := replayUpdate session.replayFilter counter },
        [.receive session.recvKey counter])
    else (p, [])

/-- A run of the initiator. -/
def runInitiator : Peer β → List (InitiatorEvent β) → Peer β × List (InitiatorEffect β) :=
  Machine.run (initiatorStep S myPriv st)

/-- What a step of the initiator can do, and when. -/
inductive InitiatorCase (p : Peer β) : InitiatorEvent β → Peer β → List (InitiatorEffect β) → Prop
  /-- Nothing. -/
  | idle {ev : InitiatorEvent β} : InitiatorCase p ev p []
  /-- A response is accepted, and a session is installed. -/
  | response {datagram : List β} {now now' : BitVec 64} {fin : ConsumedResponse β}
      (h : handshakeConsumeResponse S datagram myPriv st = .ok fin) :
      InitiatorCase p (.response datagram now now')
        (peerInitSession p st.localIndex fin.peerIndex fin.sendKey fin.recvKey now now')
        [.accept datagram, .install (Session.fresh st.localIndex fin.peerIndex fin.sendKey fin.recvKey now)]
  /-- A packet is sealed. -/
  | encrypt (hest : p.currentSession.state = .established) :
      InitiatorCase p .encrypt p.counted [.encrypt p.currentSession.sendKey p.currentSession.sendingCounter]
  /-- A packet is accepted. -/
  | data {slot : Slot} {counter : BitVec 64} (hest : (p.session slot).state = .established)
      (hfresh : replayCheck (p.session slot).replayFilter counter = true) :
      InitiatorCase p (.data slot counter)
        (p.setSession slot
          { p.session slot with replayFilter := replayUpdate (p.session slot).replayFilter counter })
        [.receive (p.session slot).recvKey counter]

theorem initiator_cases (p : Peer β) (ev : InitiatorEvent β) :
    InitiatorCase S myPriv st p ev (initiatorStep S myPriv st p ev).1 (initiatorStep S myPriv st p ev).2 := by
  cases ev with
  | response datagram now now' =>
    cases h : handshakeConsumeResponse S datagram myPriv st with
    | error e =>
      simp only [initiatorStep, h]
      exact .idle
    | ok fin =>
      have hsession : (peerInitSession p st.localIndex fin.peerIndex fin.sendKey fin.recvKey now now').currentSession =
          Session.fresh st.localIndex fin.peerIndex fin.sendKey fin.recvKey now := by rw [peerInitSession_eq]
      simp only [initiatorStep, h, hsession]
      exact .response h
  | encrypt =>
    by_cases hest : p.currentSession.state = .established
    · rw [initiatorStep, if_pos hest]
      exact .encrypt hest
    · rw [initiatorStep, if_neg hest]
      exact .idle
  | data slot counter =>
    by_cases h : (p.session slot).state = .established ∧ replayCheck (p.session slot).replayFilter counter
    · rw [initiatorStep, if_pos h]
      exact .data h.1 h.2
    · rw [initiatorStep, if_neg h]
      exact .idle

/-! ### The hash calls of a response -/

/-- The calls of the hash by which the transport keys are derived. -/
def transportCalls (chainingKey Er z₃ z₄ : Bytes β 32) : List (List β × List β) :=
  vpnKdf1Calls S chainingKey Er.toList ++
    (vpnKdf1Calls S (vpnKdf1 S chainingKey Er.toList) z₃.toList ++
      (vpnKdf2Calls S (vpnKdf1 S (vpnKdf1 S chainingKey Er.toList) z₃.toList) z₄.toList ++
        vpnKdf2Calls S (responseKeys S chainingKey Er z₃ z₄).1 []))

/-- Those that `handshake_consume_response` makes for a datagram. -/
def responseCalls (datagram : List β) : List (List β × List β) :=
  match packetParseHandshakeResp datagram with
  | .error _ => []
  | .ok msg =>
    match S.scalarmult st.ephemeralPrivate msg.unencryptedEphemeral, S.scalarmult myPriv msg.unencryptedEphemeral with
    | some z₃, some z₄ => transportCalls S st.chainingKey msg.unencryptedEphemeral z₃ z₄
    | _, _ => []

/-- The two keys of a session come from a response with this ephemeral. -/
def Derived (datagram : List β) (s : Session β) : Prop :=
  ∃ Er z₃ z₄ : Bytes β 32, Er.toList = (datagram.drop 12).take 32 ∧
    transportCalls S st.chainingKey Er z₃ z₄ = responseCalls S myPriv st datagram ∧
    (s.recvKey, s.sendKey) = transportKeys S st.chainingKey Er z₃ z₄

end

/-- **Either transport key determines the responder's ephemeral**, where the calls that derived it do not
collide with those of the other one. -/
theorem transportKeys_ephemeral {S : Sodium β} {calls : List (List β × List β)} (hS : S.CollisionFree calls)
    {ck ck' Er Er' z₃ z₃' z₄ z₄' : Bytes β 32} (hx : transportCalls S ck Er z₃ z₄ ⊆ calls)
    (hy : transportCalls S ck' Er' z₃' z₄' ⊆ calls)
    (h : (transportKeys S ck Er z₃ z₄).1 = (transportKeys S ck' Er' z₃' z₄').1 ∨
      (transportKeys S ck Er z₃ z₄).2 = (transportKeys S ck' Er' z₃' z₄').2) : Er = Er' := by
  simp only [transportCalls, List.append_subset] at hx hy
  obtain ⟨hx₁, hx₂, hx₃, hx₄⟩ := hx
  obtain ⟨hy₁, hy₂, hy₃, hy₄⟩ := hy
  -- the derivations are taken apart from the last to the first
  have h₄ : (responseKeys S ck Er z₃ z₄).1 = (responseKeys S ck' Er' z₃' z₄').1 := by
    rcases h with h | h
    · exact (hS.kdf2_fst hx₄ hy₄ h).1
    · exact (hS.kdf2_snd hx₄ hy₄ h).1
  have h₃ := (hS.kdf2_fst hx₃ hy₃ h₄).1
  have h₂ := (hS.kdf1 hx₂ hy₂ h₃).1
  exact List.Vector.eq _ _ (hS.kdf1 hx₁ hy₁ h₂).2

/-! ### What a trace shows -/

section

omit [Octet β]

/-- The responses accepted. -/
def accepted (trace : List (InitiatorEffect β)) : List (List β) :=
  trace.filterMap fun
    | .accept datagram => some datagram
    | _ => none

/-- The sessions installed. -/
def installs (trace : List (InitiatorEffect β)) : List (Session β) :=
  trace.filterMap fun
    | .install s => some s
    | _ => none

/-- The key and the counter of each packet sealed. -/
def sealings (trace : List (InitiatorEffect β)) : List (Bytes β 32 × BitVec 64) :=
  trace.filterMap fun
    | .encrypt key c => some (key, c)
    | _ => none

/-- The key and the counter of each packet accepted. -/
def receipts (trace : List (InitiatorEffect β)) : List (Bytes β 32 × BitVec 64) :=
  trace.filterMap fun
    | .receive key c => some (key, c)
    | _ => none

/-- The second effect does not reset the filter of a key that the first one shows in use. -/
def NoReset (e e' : InitiatorEffect β) : Prop := ∀ k c s, e = .receive k c → e' = .install s → s.recvKey ≠ k

theorem accepted_append (trace effects : List (InitiatorEffect β)) :
    accepted (trace ++ effects) = accepted trace ++ accepted effects :=
  List.filterMap_append

/-- Two sessions of the peer have different keys. -/
def Peer.KeysDistinct (p : Peer β) : Prop :=
  ∀ {slot s slot' s'}, p.Established slot s → p.Established slot' s' →
    s.sendKey = s'.sendKey ∨ s.recvKey = s'.recvKey → slot = slot'

end

section

variable (S : Sodium β) (myPriv : Bytes β 32) (st : HandshakeInitState β) (p₀ : Peer β)

/-- The calls of the hash that were made for the responses accepted. -/
def scheduleCalls (trace : List (InitiatorEffect β)) : List (List β × List β) :=
  (accepted trace).flatMap (responseCalls S myPriv st)

/-- A step that is safe, in a run from `p₀`: a response that is accepted has another ephemeral (octets 12 to
43) than those accepted before, and its keys are not those of a session from before the run; and a packet
is not sealed with the last counter. -/
def SafeStep (past : List (InitiatorEffect β)) (p : Peer β) : InitiatorEvent β → Prop
  | .response datagram _ _ => ∀ fin, handshakeConsumeResponse S datagram myPriv st = .ok fin →
      (∀ earlier ∈ accepted past, (earlier.drop 12).take 32 ≠ (datagram.drop 12).take 32) ∧
        fin.sendKey ∉ p₀.keysInUse Session.sendKey ∧ fin.recvKey ∉ p₀.keysInUse Session.recvKey
  | .encrypt => p.currentSession.state = .established → p.currentSession.sendingCounter ≠ BitVec.allOnes 64
  | .data _ _ => True

instance [DecidableEq β] (past : List (InitiatorEffect β)) (p : Peer β) : DecidablePred (SafeStep S myPriv st p₀ past p)
  | .response datagram _ _ => Except.decidableForallOk (handshakeConsumeResponse S datagram myPriv st)
  | .encrypt => inferInstanceAs (Decidable (_ → _))
  | .data _ _ => isTrue trivial

end

/-! ### One step -/

/-- The invariant: what was done so far and the peer, in a run that starts from `p₀`. -/
structure InitiatorInv (S : Sodium β) (myPriv : Bytes β 32) (st : HandshakeInitState β) (p₀ : Peer β)
    (trace : List (InitiatorEffect β)) (p : Peer β) : Prop where
  /-- No counter is used twice under one send key. -/
  outbound : Inv (p₀.keysInUse Session.sendKey ++ (installs trace).map Session.sendKey) (sealings trace)
    (holders p.Established outboundView)
  /-- No counter is accepted twice under one receive key. -/
  inbound : Inv (p₀.keysInUse Session.recvKey ++ (installs trace).map Session.recvKey) (receipts trace)
    (holders p.Established inboundView)
  /-- The keys of every session installed come from a response that was accepted. -/
  derived : ∀ s ∈ installs trace, ∃ datagram ∈ accepted trace, Derived S myPriv st datagram s
  /-- No filter was reset that had accepted packets. -/
  noReset : trace.Pairwise NoReset

variable {S : Sodium β} {myPriv : Bytes β 32} {st : HandshakeInitState β} {p₀ p p' : Peer β}
  {trace effects : List (InitiatorEffect β)} {ev : InitiatorEvent β}

/-- A parsed response has its ephemeral in the octets 12 to 43. -/
theorem toList_ephemeral {datagram : List β} {msg : PacketHandshakeResp β}
    (h : packetParseHandshakeResp datagram = .ok msg) :
    msg.unencryptedEphemeral.toList = (datagram.drop 12).take 32 := by
  obtain ⟨-, -, rfl⟩ := packetParseHandshakeResp_eq_ok.mp h
  exact List.Vector.toList_mk _ _

/-- The keys of an accepted response come from its ephemeral. -/
theorem derived_of_accepted {datagram : List β} {fin : ConsumedResponse β}
    (h : handshakeConsumeResponse S datagram myPriv st = .ok fin) (localIdx : BitVec 32) (now : BitVec 64) :
    Derived S myPriv st datagram (Session.fresh localIdx fin.peerIndex fin.sendKey fin.recvKey now) := by
  obtain ⟨msg, hparse, -, z₃, z₄, hz₃, hz₄, -, rfl⟩ := handshakeConsumeResponse_eq_ok.mp h
  refine ⟨msg.unencryptedEphemeral, z₃, z₄, toList_ephemeral hparse, ?_, rfl⟩
  simp only [responseCalls, hparse, hz₃, hz₄]

/-- A key of a response with a new ephemeral is new: `out` says which of the two keys. -/
theorem InitiatorInv.fresh (hinv : InitiatorInv S myPriv st p₀ trace p) {calls : List (List β × List β)}
    (out : Bytes β 32 × Bytes β 32 → Bytes β 32)
    (hinj : ∀ {Er z₃ z₄ Er' z₃' z₄'}, transportCalls S st.chainingKey Er z₃ z₄ ⊆ calls →
      transportCalls S st.chainingKey Er' z₃' z₄' ⊆ calls → out (transportKeys S st.chainingKey Er z₃ z₄) =
      out (transportKeys S st.chainingKey Er' z₃' z₄') → Er = Er')
    {datagram : List β} {s : Session β} (hs : Derived S myPriv st datagram s)
    (hcalls : ∀ b ∈ accepted trace ++ [datagram], responseCalls S myPriv st b ⊆ calls)
    (hnew : ∀ earlier ∈ accepted trace, (earlier.drop 12).take 32 ≠ (datagram.drop 12).take 32)
    (hother : out (s.recvKey, s.sendKey) ∉ p₀.keysInUse fun s => out (s.recvKey, s.sendKey)) :
    out (s.recvKey, s.sendKey) ∉ p₀.keysInUse (fun s => out (s.recvKey, s.sendKey)) ++
      (installs trace).map fun s => out (s.recvKey, s.sendKey) := by
  obtain ⟨Er, z₃, z₄, hEr, hmade, hkeys⟩ := hs
  intro hmem
  rcases List.mem_append.mp hmem with hmem | hmem
  · exact hother hmem
  · obtain ⟨s', hs', hkey⟩ := List.mem_map.mp hmem
    obtain ⟨earlier, haccept, Er', z₃', z₄', hEr', hmade', hkeys'⟩ := hinv.derived s' hs'
    rw [hkeys, hkeys'] at hkey
    have heq : Er' = Er := hinj (hmade' ▸ hcalls _ (List.mem_append_left _ haccept))
      (hmade ▸ hcalls _ (List.mem_append_right _ List.mem_cons_self)) hkey
    exact hnew earlier haccept (by rw [← hEr', heq, hEr])

/-- An effect that installs nothing adds no key and resets no filter. -/
theorem InitiatorInv.quiet (hinv : InitiatorInv S myPriv st p₀ trace p) (effect : InitiatorEffect β)
    (heffect : ∀ s, effect ≠ .install s) : installs (trace ++ [effect]) = installs trace ∧
      (∀ s ∈ installs (trace ++ [effect]), ∃ datagram ∈ accepted (trace ++ [effect]), Derived S myPriv st datagram s) ∧
      (trace ++ [effect]).Pairwise NoReset := by
  have hinstalls : installs (trace ++ [effect]) = installs trace := by
    unfold installs
    rw [List.filterMap_append]
    cases effect with
    | install s => exact absurd rfl (heffect s)
    | accept _ => exact List.append_nil _
    | encrypt _ _ => exact List.append_nil _
    | receive _ _ => exact List.append_nil _
  refine ⟨hinstalls, ?_, List.pairwise_append.mpr ⟨hinv.noReset, List.pairwise_singleton _ _, ?_⟩⟩
  · rw [hinstalls]
    intro s hs
    obtain ⟨earlier, hmem, hderived⟩ := hinv.derived s hs
    exact ⟨earlier, accepted_append trace _ ▸ List.mem_append_left _ hmem, hderived⟩
  · rintro e - e' he' k c s - rfl
    exact absurd (List.mem_singleton.mp he').symm (heffect s)

omit [Octet β] in
/-- What is listed of a trace after a response was accepted and its session installed. -/
theorem lists_install (trace : List (InitiatorEffect β)) (datagram : List β) (s : Session β) :
    installs (trace ++ [.accept datagram, .install s]) = installs trace ++ [s] ∧
    sealings (trace ++ [.accept datagram, .install s]) = sealings trace ∧
    receipts (trace ++ [.accept datagram, .install s]) = receipts trace ∧
    accepted (trace ++ [.accept datagram, .install s]) = accepted trace ++ [datagram] :=
  ⟨List.filterMap_append, List.filterMap_append.trans (List.append_nil _),
    List.filterMap_append.trans (List.append_nil _), List.filterMap_append⟩

/-- Installing a session whose receive key is new resets no filter of a key in use. -/
theorem InitiatorInv.noReset_install (hinv : InitiatorInv S myPriv st p₀ trace p) (datagram : List β) {s : Session β}
    (hnew : s.recvKey ∉ p₀.keysInUse Session.recvKey ++ (installs trace).map Session.recvKey) :
    List.Pairwise NoReset (trace ++ [.accept datagram, .install s]) := by
  refine List.pairwise_append.mpr ⟨hinv.noReset, by simp [NoReset], fun e he e' he' => ?_⟩
  rintro k c s' rfl rfl
  -- a key that has accepted packets was issued, and the new one was not
  have hs' : s' = s := by simpa using he'
  have howned := hinv.inbound.owned (List.mem_filterMap.mpr ⟨_, he, rfl⟩)
  exact fun heq => hnew (by rw [← hs']; exact heq ▸ howned)

/-- An accepted response with a new ephemeral keeps the invariant. -/
theorem InitiatorInv.response (hinv : InitiatorInv S myPriv st p₀ trace p) {datagram : List β}
    {fin : ConsumedResponse β} (haccept : handshakeConsumeResponse S datagram myPriv st = .ok fin)
    (now now' : BitVec 64) (hsafe : SafeStep S myPriv st p₀ trace p (.response datagram now now'))
    (hcollision : S.CollisionFree (scheduleCalls S myPriv st (trace ++ [.accept datagram,
      .install (Session.fresh st.localIndex fin.peerIndex fin.sendKey fin.recvKey now)]))) :
    InitiatorInv S myPriv st p₀
      (trace ++ [.accept datagram, .install (Session.fresh st.localIndex fin.peerIndex fin.sendKey fin.recvKey now)])
      (peerInitSession p st.localIndex fin.peerIndex fin.sendKey fin.recvKey now now') := by
  obtain ⟨hnew, hother⟩ := hsafe fin haccept
  have hs := derived_of_accepted haccept st.localIndex now
  obtain ⟨s, hsdef⟩ : ∃ s, s = Session.fresh st.localIndex fin.peerIndex fin.sendKey fin.recvKey now := ⟨_, rfl⟩
  have hotherSend : s.sendKey ∉ p₀.keysInUse Session.sendKey := hsdef ▸ hother.1
  have hotherRecv : s.recvKey ∉ p₀.keysInUse Session.recvKey := hsdef ▸ hother.2
  rw [← hsdef] at hs hcollision ⊢
  obtain ⟨hinstalls, hsealings, hreceipts, haccepted⟩ := lists_install trace datagram s
  have hcalls : ∀ b ∈ accepted trace ++ [datagram],
      responseCalls S myPriv st b ⊆ scheduleCalls S myPriv st (trace ++ [.accept datagram, .install s]) :=
    fun b hb call hcall => List.mem_flatMap.mpr ⟨b, haccepted ▸ hb, hcall⟩
  have hsend := hinv.fresh Prod.snd (fun hx hy h => transportKeys_ephemeral hcollision hx hy (.inr h)) hs hcalls hnew
    hotherSend
  have hrecv := hinv.fresh Prod.fst (fun hx hy h => transportKeys_ephemeral hcollision hx hy (.inl h)) hs hcalls hnew
    hotherRecv
  refine ⟨?_, ?_, ?_, ?_⟩
  · rw [hinstalls, hsealings, List.map_append, ← List.append_assoc]
    exact hsdef ▸ Peer.inv_initSession hinv.outbound now' (hsdef ▸ hsend)
  · rw [hinstalls, hreceipts, List.map_append, ← List.append_assoc]
    exact hsdef ▸ Peer.inv_initSession hinv.inbound now' (hsdef ▸ hrecv)
  · rw [hinstalls, haccepted]
    intro s' hs'
    rcases List.mem_append.mp hs' with hs' | hs'
    · obtain ⟨earlier, hmem, hderived⟩ := hinv.derived s' hs'
      exact ⟨earlier, List.mem_append_left _ hmem, hderived⟩
    · rw [List.mem_singleton.mp hs']
      exact ⟨datagram, List.mem_append_right _ List.mem_cons_self, hs⟩
  · exact hinv.noReset_install datagram hrecv

/-- Sealing a packet keeps the invariant, when there is room in the counter. -/
theorem InitiatorInv.encrypt (hinv : InitiatorInv S myPriv st p₀ trace p) (hest : p.currentSession.state = .established)
    (hroom : p.currentSession.sendingCounter ≠ BitVec.allOnes 64) :
    InitiatorInv S myPriv st p₀ (trace ++ [.encrypt p.currentSession.sendKey p.currentSession.sendingCounter])
      p.counted := by
  obtain ⟨hinstalls, hderived, hreset⟩ :=
    hinv.quiet (.encrypt p.currentSession.sendKey p.currentSession.sendingCounter) nofun
  have hlt := lt_add_one_of_ne_allOnes hroom
  have hsealings : sealings (trace ++ [.encrypt p.currentSession.sendKey p.currentSession.sendingCounter]) =
      sealings trace ++ [(p.currentSession.sendKey, p.currentSession.sendingCounter)] := List.filterMap_append
  have hreceipts : receipts (trace ++ [.encrypt p.currentSession.sendKey p.currentSession.sendingCounter]) =
      receipts trace ++ [] := List.filterMap_append
  refine ⟨?_, ?_, hderived, hreset⟩
  · rw [hinstalls, hsealings]
    refine inv_write hinv.outbound .current ⟨rfl, hest⟩ (Peer.established_write fun _ => Peer.session_counted_of_ne) rfl
      (fun c hc => BitVec.lt_trans hc hlt) (fun hu => ?_) (List.nodup_singleton _)
    cases List.mem_singleton.mp hu
    exact ⟨rfl, BitVec.lt_irrefl _, hlt⟩
  · rw [hinstalls, hreceipts]
    exact inv_write hinv.inbound .current ⟨rfl, hest⟩ (Peer.established_write fun _ => Peer.session_counted_of_ne) rfl
      subset_rfl (fun hu => absurd hu List.not_mem_nil) List.nodup_nil

/-- So does accepting a packet. -/
theorem InitiatorInv.data (hinv : InitiatorInv S myPriv st p₀ trace p) {slot : Slot} {counter : BitVec 64}
    (hest : (p.session slot).state = .established)
    (hfresh : replayCheck (p.session slot).replayFilter counter = true) :
    InitiatorInv S myPriv st p₀ (trace ++ [.receive (p.session slot).recvKey counter]) (p.setSession slot
      { p.session slot with replayFilter := replayUpdate (p.session slot).replayFilter counter }) := by
  obtain ⟨hinstalls, hderived, hreset⟩ := hinv.quiet (.receive (p.session slot).recvKey counter) nofun
  have hsealings : sealings (trace ++ [.receive (p.session slot).recvKey counter]) = sealings trace ++ [] :=
    List.filterMap_append
  have hreceipts : receipts (trace ++ [.receive (p.session slot).recvKey counter]) =
      receipts trace ++ [((p.session slot).recvKey, counter)] := List.filterMap_append
  refine ⟨?_, ?_, hderived, hreset⟩
  · rw [hinstalls, hsealings]
    refine inv_write hinv.outbound slot ⟨rfl, hest⟩ (Peer.established_write fun _ => p.session_setSession_of_ne _) ?_ ?_
      (fun hu => absurd hu List.not_mem_nil) List.nodup_nil <;> rw [Peer.session_setSession_self]
    · rfl
    · exact subset_rfl
  · rw [hinstalls, hreceipts]
    refine inv_write hinv.inbound slot ⟨rfl, hest⟩ (Peer.established_write fun _ => p.session_setSession_of_ne _) ?_ ?_
      (fun hu => ?_) (List.nodup_singleton _) <;> rw [Peer.session_setSession_self]
    · rfl
    · exact fun c hc => replayCheck_replayUpdate_of_refused _ hc
    · cases List.mem_singleton.mp hu
      exact ⟨rfl, fun hspent => Bool.eq_false_iff.mp hspent hfresh, replayCheck_replayUpdate_self _ _⟩

/-- **One safe step keeps the invariant**, as long as the hash does not collide. -/
theorem initiatorInv_step (h : InitiatorCase S myPriv st p ev p' effects) (hsafe : SafeStep S myPriv st p₀ trace p ev)
    (hcollision : S.CollisionFree (scheduleCalls S myPriv st (trace ++ effects)))
    (hinv : InitiatorInv S myPriv st p₀ trace p) : InitiatorInv S myPriv st p₀ (trace ++ effects) p' := by
  cases h with
  | idle => rwa [List.append_nil]
  | response haccept => exact hinv.response haccept _ _ hsafe hcollision
  | encrypt hest => exact hinv.encrypt hest (hsafe hest)
  | data hest hfresh => exact hinv.data hest hfresh

/-! ### Runs -/

/-- At the start nothing was done. -/
theorem initiatorInv_start (hstart : p.KeysDistinct) : InitiatorInv S myPriv st p [] p where
  outbound := Inv.start
    (fun ⟨s, hs, heq⟩ => List.mem_append_left _ (Peer.mem_keysInUse.mpr ⟨_, s, hs, heq ▸ rfl⟩))
    (fun ⟨_, hs, heq⟩ ⟨_, hs', heq'⟩ hkey => hstart hs hs' (.inl (by rw [heq, heq'] at hkey; exact hkey)))
  inbound := Inv.start
    (fun ⟨s, hs, heq⟩ => List.mem_append_left _ (Peer.mem_keysInUse.mpr ⟨_, s, hs, heq ▸ rfl⟩))
    (fun ⟨_, hs, heq⟩ ⟨_, hs', heq'⟩ hkey => hstart hs hs' (.inr (by rw [heq, heq'] at hkey; exact hkey)))
  derived _ hs := absurd hs List.not_mem_nil
  noReset := List.Pairwise.nil

/-- The responses accepted so far made no more calls than all of them. -/
theorem scheduleCalls_subset_append (past effects : List (InitiatorEffect β)) :
    scheduleCalls S myPriv st past ⊆ scheduleCalls S myPriv st (past ++ effects) := by
  rw [scheduleCalls, scheduleCalls, accepted_append, List.flatMap_append]
  exact List.subset_append_left _ _

/-- **Responses with new ephemerals are safe.** Take any run of an initiator in which each response accepted
has another ephemeral than those accepted before, and no packet is sealed with the last counter. If no two
of the hash calls made for the accepted responses collide, no counter is used twice under one send key, and
no filter is reset whose key has accepted packets. The sessions the peer has from before have keys of
their own. -/
theorem responses_safe (S : Sodium β) (myPriv : Bytes β 32) (st : HandshakeInitState β) (p : Peer β)
    (hstart : p.KeysDistinct) (events : List (InitiatorEvent β))
    (hsafe : Machine.Along (initiatorStep S myPriv st) (SafeStep S myPriv st p) [] p events)
    (hcollision : S.CollisionFree (scheduleCalls S myPriv st (runInitiator S myPriv st p events).2)) :
    (sealings (runInitiator S myPriv st p events).2).Nodup ∧
      (runInitiator S myPriv st p events).2.Pairwise NoReset := by
  have hinv : InitiatorInv S myPriv st p (runInitiator S myPriv st p events).2 (runInitiator S myPriv st p events).1 :=
    Machine.run_invariant_while (initiatorStep S myPriv st) (I := InitiatorInv S myPriv st p)
      (P := fun trace => S.CollisionFree (scheduleCalls S myPriv st trace))
      (fun past effects h => h.mono (scheduleCalls_subset_append past effects))
      (fun _ p' ev hsafe hcollision hinv =>
        initiatorInv_step (initiator_cases S myPriv st p' ev) hsafe hcollision hinv) hsafe
      (initiatorInv_start hstart) hcollision
  exact ⟨hinv.outbound.once, hinv.noReset⟩

/-- A run of the toy initiator: two responses to its initiation arrive, with the ephemerals 13 and 17, and
packets are sealed and accepted under both. -/
def toyResponses : List (InitiatorEvent (BitVec 8)) :=
  [.response (toyResponse 13) 500 500, .encrypt, .data .current 5, .encrypt, .response (toyResponse 17) 501 501,
    .encrypt, .data .current 5, .data .previous 6]

/-- A peer without sessions has none with equal keys. -/
theorem toyPeer_keysDistinct : toyPeer.KeysDistinct := by
  rintro slot s slot' s' ⟨rfl, hest⟩
  cases slot <;> cases hest

/-- Both responses are accepted, and the two sessions have keys of their own. -/
theorem responses_safe_toy :
    accepted (runInitiator toySodium toyInitiatorPriv toyInitState toyPeer toyResponses).2 =
        [toyResponse 13, toyResponse 17] ∧
      (sealings (runInitiator toySodium toyInitiatorPriv toyInitState toyPeer toyResponses).2).map Prod.snd =
        [0, 1, 0] ∧
      (sealings (runInitiator toySodium toyInitiatorPriv toyInitState toyPeer toyResponses).2).Nodup ∧
      (runInitiator toySodium toyInitiatorPriv toyInitState toyPeer toyResponses).2.Pairwise NoReset :=
  ⟨by decide +kernel, by decide +kernel,
    responses_safe toySodium toyInitiatorPriv toyInitState toyPeer toyPeer_keysDistinct toyResponses
      (by decide +kernel) (by decide +kernel)⟩

/-- The session the symbolic initiator installs, at a time. -/
noncomputable def symbolicSession (now : BitVec 64) : Session Symbol :=
  Session.fresh 7 1 symbolicTransport.2 symbolicTransport.1 now

/-- Whenever the response is delivered, it is installed. -/
theorem initiatorStep_symbolicResponse (p : Peer Symbol) (now now' : BitVec 64) :
    initiatorStep symbolicSodium (privateKey 1) symbolicInitiator.state p
        (.response (symbolicResponse 1 7).wire now now') =
      (peerInitSession p 7 1 symbolicTransport.2 symbolicTransport.1 now now',
        [.accept (symbolicResponse 1 7).wire, .install (symbolicSession now)]) := by
  have hsession : (peerInitSession p 7 1 symbolicTransport.2 symbolicTransport.1 now now').currentSession =
      symbolicSession now := by rw [peerInitSession_eq]; rfl
  simp only [initiatorStep, symbolicResponse_accepted]
  rw [← hsession]
  rfl

/-- **A response that is delivered twice** makes the initiator use a counter twice under one key, and reset a
filter that has accepted packets. -/
theorem response_replay :
    ¬ (sealings (runInitiator symbolicSodium (privateKey 1) symbolicInitiator.state symbolicPeer
      [.response (symbolicResponse 1 7).wire 500 500, .encrypt, .data .current 5,
        .response (symbolicResponse 1 7).wire 501 501, .encrypt]).2).Nodup ∧
    ¬ (runInitiator symbolicSodium (privateKey 1) symbolicInitiator.state symbolicPeer
      [.response (symbolicResponse 1 7).wire 500 500, .encrypt, .data .current 5,
        .response (symbolicResponse 1 7).wire 501 501, .encrypt]).2.Pairwise NoReset := by
  have htrace : (runInitiator symbolicSodium (privateKey 1) symbolicInitiator.state symbolicPeer
      [.response (symbolicResponse 1 7).wire 500 500, .encrypt, .data .current 5,
        .response (symbolicResponse 1 7).wire 501 501, .encrypt]).2 =
      [.accept (symbolicResponse 1 7).wire, .install (symbolicSession 500), .encrypt symbolicTransport.2 0,
        .receive symbolicTransport.1 5, .accept (symbolicResponse 1 7).wire, .install (symbolicSession 501),
        .encrypt symbolicTransport.2 0] := by
    rw [runInitiator, Machine.run_cons, initiatorStep_symbolicResponse, Machine.run_cons, Machine.run_cons,
      Machine.run_cons, initiatorStep_symbolicResponse]
    rfl
  rw [htrace]
  constructor
  · simp [sealings]
  · intro h
    have hpair := List.pairwise_iff_getElem.mp h 3 5 (by decide) (by decide) (by decide)
    exact hpair symbolicTransport.1 5 (symbolicSession 501) rfl rfl rfl

end VpnTunnel
