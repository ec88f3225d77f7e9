import VpnTunnel.Authentication
import VpnTunnel.Tunnel

/-!
# What strangers can make the daemon do

Anyone can send datagrams to the daemon, with any source address, and can send it its own datagrams back. This module
asks what that can lead to, over whole runs of the event loop: whether the daemon takes what it has itself sent for
something a peer has sent, whether it sends more than it is sent, and where it sends to.

## The argument

The daemon sends responses, which it does not accept, and data sealed under the send keys of its sessions. A send key
is the first key of a pair and a receive key the second one, and no first key is a second key (`Oriented`).

A datagram is answered only when it is an initiation that is accepted, and then with a shorter datagram. The endpoint
of a peer changes only when something is accepted that the peer has authenticated (`Hears`).

## What is proved

* `reflection_refused` — whatever the daemon has sent, it drops.
* `no_amplification` — it sends at most as many octets as it is sent, but for the packets of its own device.
* `endpoint_follows` — the endpoint of a peer is where the last datagram of the peer came from that was accepted.
-/

namespace VpnTunnel

open Octets

variable {β : Type} [Octet β]

/-! ### Reflection -/

/-- The keys of a session come out of one key schedule, the first one for sending. -/
def Oriented (S : Sodium β) (s : Session β) : Prop :=
  ∃ ck Er z₃ z₄, s.sendKey = (transportKeys S ck Er z₃ z₄).1 ∧ s.recvKey = (transportKeys S ck Er z₃ z₄).2

/-- A datagram the daemon makes. -/
inductive Emitted (S : Sodium β) : List β → Prop
  /-- A response. -/
  | response (msg : PacketHandshakeResp β) : Emitted S msg.wire
  /-- A packet, sealed in a session. -/
  | data {s : Session β} (hs : Oriented S s) (b : List β) : Emitted S (sealedPacket S s b).wire

theorem packetPeekType_handshakeResp (msg : PacketHandshakeResp β) : packetPeekType msg.wire = .handshakeResp := by
  simp [packetPeekType, PacketHandshakeResp.wire, wireHeader]

theorem length_handshakeResp (msg : PacketHandshakeResp β) : msg.wire.length = 92 := by
  simp [PacketHandshakeResp.wire]

section

variable [DecidableEq β] {S : Sodium β} {d d' : Daemon β} {ev : Event β} {effects : List (Effect β)}

theorem oriented_newSession {init : ConsumedInitiation d.table} {er : Bytes β 32} {resp : CreatedResponse β}
    (h : d.respond S init er = .ok resp) (now : BitVec 64) : Oriented S (d.newSession init resp now) := by
  obtain ⟨-, z₃, z₄, -, -, -, hsend, hrecv⟩ := handshakeCreateResponse_eq_ok.mp h
  exact ⟨_, _, z₃, z₄, hsend, hrecv⟩

/-- The keys of sessions in use come out of a key schedule, and a step keeps it so. -/
theorem StepCase.oriented (h : StepCase S d ev d' effects)
    (hinv : ∀ i slot s, d.table.Established i slot s → Oriented S s) :
    ∀ i slot s, d'.table.Established i slot s → Oriented S s := by
  intro i slot s hs
  rcases h.established_keys hs with ⟨slot', s₀, hs₀, hsend, hrecv⟩ | hinstall
  · obtain ⟨ck, Er, z₃, z₄, hsend₀, hrecv₀⟩ := hinv i slot' s₀ hs₀
    exact ⟨ck, Er, z₃, z₄, hsend ▸ hsend₀, hrecv ▸ hrecv₀⟩
  · obtain ⟨r, init, resp, -, -, hresp, -, rfl⟩ := h.install_origin hinstall
    exact oriented_newSession hresp r.now

/-- What a step sends is a response or a sealed packet. -/
theorem StepCase.emitted (h : StepCase S d ev d' effects)
    (hinv : ∀ i slot s, d.table.Established i slot s → Oriented S s) {dest : Endpoint} {b : List β}
    (hb : .send dest b ∈ effects) : Emitted S b := by
  rcases h.send_origin hb with ⟨r, init, resp, -, -, hresp, -, -, rfl⟩ | ⟨packet, i, -, hroute, -, -, rfl⟩
  · obtain ⟨-, z₃, z₄, -, -, hpacket, -⟩ := handshakeCreateResponse_eq_ok.mp hresp
    rw [hpacket]
    exact .response _
  · exact .data (hinv _ _ _ (PeerTable.established_get .current hroute.established)) _

omit [DecidableEq β] in
/-- What is sealed opens under its own key only. -/
theorem eq_of_opens (hS : S.Symbolic) {n : ℕ} {m : Bytes β n} {key key' : Bytes β 32} {c : BitVec 64}
    {plain : Bytes β (vpnCryptoAeadEncrypt S m [] c key).1.toList.length}
    (h : vpnCryptoAeadDecrypt S (ofList (vpnCryptoAeadEncrypt S m [] c key).1.toList)
      (vpnCryptoAeadEncrypt S m [] c key).2 [] c key' = .ok plain) : key = key' := by
  generalize hout : vpnCryptoAeadEncrypt S m [] c key = out at plain h
  obtain ⟨⟨l, rfl⟩, tag⟩ := out
  have henc := hS.encrypt_of_decrypt (vpnCryptoAeadDecrypt_eq_ok.mp h)
  exact (hS.encrypt_inj (Eq.trans hout henc.symm)).1

/-- **Neither is ever accepted.** -/
theorem Emitted.refused (hS : S.Symbolic) (hinv : ∀ i slot s, d.table.Established i slot s → Oriented S s) {r : Recv β}
    (h : Emitted S (r.datagram.take 2048)) : step S d (.udp r) = (d, []) := by
  refine udpStep_of_not_accepted (fun parsed i slot plain hacc => ?_) fun init hacc => ?_
  · have htype := hacc.type
    have hparse := hacc.parse
    generalize r.datagram.take 2048 = buf at h htype hparse
    cases h with
    | response msg =>
      rw [packetPeekType_handshakeResp] at htype
      rcases htype with htype | htype <;> cases htype
    | @data s hs b =>
      by_cases hlen : (sealedPacket S s b).ciphertext.length ≤ 1440
      · cases (packetParseData_wire hlen).symm.trans hparse
        obtain ⟨hest, -⟩ := peerFindByIndex_eq_some hacc.find
        obtain ⟨ck, Er, z₃, z₄, hsend, -⟩ := hs
        obtain ⟨ck', Er', z₃', z₄', -, hrecv⟩ := hinv _ _ _ (PeerTable.established_get slot hest)
        have hkey := eq_of_opens hS hacc.opens
        exact transportKeys_fst_ne_snd hS (hsend.symm.trans (hkey.trans hrecv))
      · rw [packetParseData_wire_of_long (Nat.lt_of_not_le hlen)] at hparse
        cases hparse
  · have htype := hacc.type
    generalize r.datagram.take 2048 = buf at h htype
    cases h with
    | response msg =>
      rw [packetPeekType_handshakeResp] at htype
      cases htype
    | data hs b => rcases packetPeekType_data (sealedPacket S _ b) with hdata | hdata <;> cases hdata.symm.trans htype

/-- What a step sends is not empty, and fits into a buffer. -/
theorem StepCase.length_send (h : StepCase S d ev d' effects) {dest : Endpoint} {b : List β}
    (hb : .send dest b ∈ effects) : 32 ≤ b.length ∧ b.length ≤ 2048 := by
  cases h with
  | idle => exact absurd hb List.not_mem_nil
  | data h => cases (mem_deliver.mp hb).1
  | @initiation r init resp h hresp =>
    simp only [List.mem_cons, reduceCtorEq, Effect.send.injEq, List.not_mem_nil, false_or, or_false] at hb
    obtain ⟨-, z₃, z₄, -, -, hpacket, -⟩ := handshakeCreateResponse_eq_ok.mp hresp
    rw [hb.2, hpacket, length_handshakeResp]
    decide
  | unanswered _ _ => simp at hb
  | @outbound packet i h =>
    rw [List.mem_cons] at hb
    obtain ⟨hlen, -, hwire⟩ := mem_sendSealed.mp (hb.resolve_left nofun)
    rw [hwire, PacketData.length_wire, length_sealedPacket]
    constructor <;> omega

/-- What holds of the sessions and of the datagrams sent. -/
theorem oriented_run (S : Sodium β) (hstart : d.table.NoSessions) (events : List (Event β)) :
    (∀ i slot s, (runLoop S d events).1.table.Established i slot s → Oriented S s) ∧
      ∀ dest b, .send dest b ∈ (runLoop S d events).2 → Emitted S b ∧ b.length ≤ 2048 := by
  refine Machine.run_invariant_of_step (step S)
    (I := fun trace d => (∀ i slot s, d.table.Established i slot s → Oriented S s) ∧
      ∀ dest b, .send dest b ∈ trace → Emitted S b ∧ b.length ≤ 2048) (fun past d ev hinv => ?_) events
    ⟨fun i slot s hs => absurd hs (hstart i slot s), fun _ _ hb => absurd hb List.not_mem_nil⟩
  have hcase := step_cases S d ev
  refine ⟨hcase.oriented hinv.1, fun dest b hb => ?_⟩
  rcases List.mem_append.mp hb with hb | hb
  · exact hinv.2 dest b hb
  · exact ⟨hcase.emitted hinv.1 hb, (hcase.length_send hb).2⟩

end

/-- **Whatever the daemon has sent, it drops.** In a run from a table without sessions, a datagram the daemon has sent,
a response or data, to whatever peer, is dropped when it arrives at the daemon itself, in whatever state the run has
come to. In the symbolic reading of the library. -/
theorem reflection_refused [DecidableEq β] (S : Sodium β) (hS : S.Symbolic) (d : Daemon β)
    (hstart : d.table.NoSessions) (events later : List (Event β)) (dest : Endpoint) (r : Recv β)
    (hsent : .send dest r.datagram ∈ (runLoop S d events).2) :
    step S (runLoop S d (events ++ later)).1 (.udp r) = ((runLoop S d (events ++ later)).1, []) := by
  obtain ⟨hemitted, hlen⟩ := (oriented_run S hstart events).2 dest r.datagram hsent
  rw [← List.take_of_length_le hlen] at hemitted
  exact hemitted.refused hS (oriented_run S hstart (events ++ later)).1

/-- The sample daemon accepts an initiation and reads a packet from its device. -/
noncomputable def sampleEvents : List (Event Symbol) :=
  [.udp (sampleRecv (symbolicInitiation 7).wire), .tun (samplePayload.map ofByte)]

theorem snd_run_sampleEvents : (runLoop symbolicSodium sampleDaemon sampleEvents).2 =
    (step symbolicSodium sampleDaemon (.udp (sampleRecv (symbolicInitiation 7).wire))).2 ++
      ((step symbolicSodium sampleResponder (.tun (samplePayload.map ofByte))).2 ++ []) := by
  rw [runLoop, sampleEvents, Machine.run_cons, Machine.run_cons, Machine.run_nil, step_sampleInitiation]

/-- Its response and its data packet are dropped when they come back. -/
theorem reflection_refused_sample :
    step symbolicSodium (runLoop symbolicSodium sampleDaemon sampleEvents).1 (.udp (sampleRecv sampleResponse.packet)) =
      ((runLoop symbolicSodium sampleDaemon sampleEvents).1, []) ∧
    step symbolicSodium (runLoop symbolicSodium sampleDaemon sampleEvents).1 (.udp (sampleRecv sampleSealed.wire)) =
      ((runLoop symbolicSodium sampleDaemon sampleEvents).1, []) := by
  have hresponse : .send (sampleRecv (symbolicInitiation 7).wire).src (sampleRecv sampleResponse.packet).datagram ∈
      (runLoop symbolicSodium sampleDaemon sampleEvents).2 := by
    rw [snd_run_sampleEvents, step_sampleInitiation]
    exact List.mem_append_left _ (List.mem_cons_of_mem _ (List.mem_cons_of_mem _ List.mem_cons_self))
  have hdata : .send sampleRekeyed.endpoint (sampleRecv sampleSealed.wire).datagram ∈
      (runLoop symbolicSodium sampleDaemon sampleEvents).2 := by
    rw [snd_run_sampleEvents]
    exact List.mem_append_right _ (List.mem_append_left _ sampleSealed_sent)
  have hdrop := reflection_refused symbolicSodium symbolicSodium_symbolic sampleDaemon sampleStart_start.noSessions
    sampleEvents []
  rw [List.append_nil] at hdrop
  exact ⟨hdrop _ _ hresponse, hdrop _ _ hdata⟩

/-! ### Amplification -/

/-- The octets handed to `transport_send`. -/
def sentOctets (effects : List (Effect β)) : ℕ := ((sends effects).map List.length).sum

/-- The octets that arrive on the socket. -/
def receivedOctets : List (Event β) → ℕ
  | [] => 0
  | .udp r :: events => r.datagram.length + receivedOctets events
  | .tun _ :: events => receivedOctets events

/-- The octets of the data packets made in a run: of what is read from the device and routed to a peer, each with the
header and the tag of a datagram. -/
def tunnelledOctets [DecidableEq β] (S : Sodium β) : Daemon β → List (Event β) → ℕ
  | _, [] => 0
  | d, .udp r :: events => tunnelledOctets S (step S d (.udp r)).1 events
  | d, .tun packet :: events =>
    (if ∃ i, Routed d (packet.take 2048) i then (packet.take 2048).length + 32 else 0) +
      tunnelledOctets S (step S d (.tun packet)).1 events

section

variable [DecidableEq β] {S : Sodium β} {d d' : Daemon β} {effects : List (Effect β)}

omit [DecidableEq β] [Octet β] in
theorem sentOctets_append (effects effects' : List (Effect β)) :
    sentOctets (effects ++ effects') = sentOctets effects + sentOctets effects' := by
  rw [sentOctets, sends, List.filterMap_append, List.map_append, List.sum_append]
  rfl

/-- A datagram is answered with 92 octets at most, and only when it has 148. -/
theorem StepCase.sentOctets_udp {r : Recv β} (h : StepCase S d (.udp r) d' effects) :
    37 * sentOctets effects ≤ 23 * r.datagram.length := by
  cases h with
  | idle => exact Nat.zero_le _
  | data h =>
    rw [sentOctets, sends, filterMap_deliver fun _ _ _ _ => rfl]
    exact Nat.zero_le _
  | @initiation _ init resp h hresp =>
    obtain ⟨hparse, -⟩ := handshakeConsumeInitiation_eq_ok.mp h.consume
    have hlen := (packetParseHandshakeInit_eq_ok.mp hparse).1
    rw [List.length_take] at hlen
    obtain ⟨-, z₃, z₄, -, -, hpacket, -⟩ := handshakeCreateResponse_eq_ok.mp hresp
    have hsent : sentOctets [.accept init.peer init.timestamp (r.datagram.take 2048),
        .install init.peer (d.newSession init resp r.now), .send r.src resp.packet] = 92 := by
      show resp.packet.length + 0 = 92
      rw [hpacket, length_handshakeResp]
    rw [hsent]
    omega
  | unanswered h hresp => exact Nat.zero_le _

/-- A packet of the device is sent with 32 octets more if it is routed, or not at all. -/
theorem StepCase.sentOctets_tun {packet : List β} (h : StepCase S d (.tun packet) d' effects) :
    sentOctets effects ≤ if ∃ i, Routed d (packet.take 2048) i then (packet.take 2048).length + 32 else 0 := by
  cases h with
  | idle => exact Nat.zero_le _
  | @outbound _ i h =>
    show sentOctets (sendSealed S (d.table.peers.get i) (packet.take 2048)) ≤ _
    rw [if_pos ⟨i, h⟩]
    unfold sendSealed
    dsimp only
    split
    · next pkt hok =>
      obtain ⟨-, hwire⟩ := packetSerializeData_eq_ok.mp hok
      show pkt.length + 0 ≤ (packet.take 2048).length + 32
      rw [hwire, PacketData.length_wire, List.Vector.toList_length]
    · exact Nat.zero_le _

end

/-- **The daemon amplifies nothing.** In every run it sends at most 23 octets for 37 that arrive on its socket, and the
packets of its own device that it routes to a peer, each with 32 octets more. -/
theorem no_amplification [DecidableEq β] (S : Sodium β) (d : Daemon β) (events : List (Event β)) :
    37 * sentOctets (runLoop S d events).2 ≤ 23 * receivedOctets events + 37 * tunnelledOctets S d events := by
  induction events generalizing d with
  | nil => exact Nat.zero_le _
  | cons ev events ih =>
    have hrest := ih (step S d ev).1
    rw [runLoop, Machine.run_cons, sentOctets_append]
    rw [runLoop] at hrest
    have hcase := step_cases S d ev
    cases ev with
    | udp r =>
      have hstep := hcase.sentOctets_udp
      rw [receivedOctets, tunnelledOctets]
      omega
    | tun packet =>
      have hstep := hcase.sentOctets_tun
      rw [receivedOctets, tunnelledOctets]
      omega

/-! ### Roaming -/

/-- A datagram arrives from an endpoint and is accepted for the `i`-th peer, as data or as an initiation that is
answered. -/
def Hears [DecidableEq β] (S : Sodium β) (d : Daemon β) (i : ℕ) (ep : Endpoint) : Event β → Prop
  | .udp r => r.src = ep ∧
      ((∃ parsed j slot plain, DataAccepted S d (r.datagram.take 2048) parsed j slot plain ∧ (j : ℕ) = i) ∨
        ∃ init resp, InitiationAccepted S d (r.datagram.take 2048) init ∧ d.respond S init r.ephemeral = .ok resp ∧
          (init.peer : ℕ) = i)
  | .tun _ => False

section

variable [DecidableEq β] {S : Sodium β} {d : Daemon β} {i : ℕ} {p : Peer β}

omit [Octet β] [DecidableEq β] in
/-- A peer of a table in which one peer was written. -/
theorem PeerTable.getElem?_update {t : PeerTable β} {j : Fin t.peers.length} {q : Peer β}
    (hp : t.peers[i]? = some p) : (t.update j q).peers[i]? = some (if (j : ℕ) = i then q else p) := by
  rw [PeerTable.update, List.getElem?_set]
  split
  · next hj => rw [if_pos j.isLt]
  · exact hp

omit [DecidableEq β] in
theorem DataAccepted.peer_unique {buf : List β} {parsed parsed' : PacketData β} {j j' : Fin d.table.peers.length}
    {slot slot' : Slot} {plain : Bytes β parsed.ciphertext.length} {plain' : Bytes β parsed'.ciphertext.length}
    (h : DataAccepted S d buf parsed j slot plain) (h' : DataAccepted S d buf parsed' j' slot' plain') : j = j' := by
  cases h.parse.symm.trans h'.parse
  cases h.find.symm.trans h'.find
  rfl

theorem DataAccepted.not_initiation {buf : List β} {parsed : PacketData β} {j : Fin d.table.peers.length}
    {slot : Slot} {plain : Bytes β parsed.ciphertext.length} (h : DataAccepted S d buf parsed j slot plain)
    (init : ConsumedInitiation d.table) : ¬ InitiationAccepted S d buf init := by
  intro hinit
  rcases h.type with htype | htype <;> cases htype.symm.trans hinit.type

/-- **A step moves a peer only when it hears it**, and then to where it hears it from. -/
theorem endpoint_step (hp : d.table.peers[i]? = some p) (ev : Event β) :
    ∃ p', (step S d ev).1.table.peers[i]? = some p' ∧
      ((∀ ep, ¬ Hears S d i ep ev) ∧ p'.endpoint = p.endpoint ∨
        ∃ ep, Hears S d i ep ev ∧ (p'.endpoint = ep ∨ endpointEqual p'.endpoint ep = true)) := by
  have hmoved : ∀ (q : Peer β) ep, (peerUpdateEndpoint q ep).1.endpoint = ep ∨
      endpointEqual (peerUpdateEndpoint q ep).1.endpoint ep = true := by
    intro q ep
    rw [peerUpdateEndpoint_fst]
    by_cases heq : endpointEqual q.endpoint ep
    · exact .inr (by simp only [heq, if_true])
    · exact .inl (by simp only [heq, if_false, Bool.false_eq_true])
  cases ev with
  | tun packet =>
    by_cases hroute : ∃ j, Routed d (packet.take 2048) j
    · obtain ⟨j, hroute⟩ := hroute
      rw [step, tunStep_of_routed hroute]
      refine ⟨_, PeerTable.getElem?_update hp, .inl ⟨fun _ h => h, ?_⟩⟩
      split
      · next hj =>
        subst hj
        rw [List.getElem?_eq_getElem j.isLt] at hp
        rw [← Option.some.inj hp]
        rfl
      · rfl
    · rw [step, tunStep_of_not_routed (not_exists.mp hroute)]
      exact ⟨p, hp, .inl ⟨fun _ h => h, rfl⟩⟩
  | udp r =>
    by_cases hdata : ∃ parsed j slot plain, DataAccepted S d (r.datagram.take 2048) parsed j slot plain
    · obtain ⟨parsed, j, slot, plain, hacc⟩ := hdata
      rw [step, udpStep_of_data hacc]
      refine ⟨_, PeerTable.getElem?_update hp, ?_⟩
      by_cases hj : (j : ℕ) = i
      · rw [if_pos hj]
        exact .inr ⟨r.src, ⟨rfl, .inl ⟨parsed, j, slot, plain, hacc, hj⟩⟩, hmoved _ _⟩
      · rw [if_neg hj]
        refine .inl ⟨?_, rfl⟩
        rintro ep ⟨-, ⟨parsed', j', slot', plain', hacc', hj'⟩ | ⟨init, resp, hinit, -⟩⟩
        · exact hj (hacc.peer_unique hacc' ▸ hj')
        · exact hacc.not_initiation init hinit
    · by_cases hinit : ∃ init, InitiationAccepted S d (r.datagram.take 2048) init
      · obtain ⟨init, hacc⟩ := hinit
        rw [step, udpStep_of_initiation hacc]
        cases hresp : d.respond S init r.ephemeral with
        | error e =>
          refine ⟨p, hp, .inl ⟨?_, rfl⟩⟩
          rintro ep ⟨-, ⟨parsed, j, slot, plain, hacc', -⟩ | ⟨init', resp, hinit, hresp', -⟩⟩
          · exact hdata ⟨parsed, j, slot, plain, hacc'⟩
          · cases hacc.consume.symm.trans hinit.consume
            cases hresp.symm.trans hresp'
        | ok resp =>
          refine ⟨_, PeerTable.getElem?_update (t := d.table.takeIndex) hp, ?_⟩
          by_cases hj : (init.peer : ℕ) = i
          · rw [if_pos hj]
            exact .inr ⟨r.src, ⟨rfl, .inr ⟨init, resp, hacc, hresp, hj⟩⟩, hmoved _ _⟩
          · rw [if_neg hj]
            refine .inl ⟨?_, rfl⟩
            rintro ep ⟨-, ⟨parsed, j, slot, plain, hacc', -⟩ | ⟨init', resp', hinit, -, hj'⟩⟩
            · exact hdata ⟨parsed, j, slot, plain, hacc'⟩
            · cases hacc.consume.symm.trans hinit.consume
              exact hj hj'
      · rw [step, udpStep_of_not_accepted (by simpa using hdata) (by simpa using hinit)]
        refine ⟨p, hp, .inl ⟨?_, rfl⟩⟩
        rintro ep ⟨-, ⟨parsed, j, slot, plain, hacc, -⟩ | ⟨init, resp, hacc, -⟩⟩
        · exact hdata ⟨parsed, j, slot, plain, hacc⟩
        · exact hinit ⟨init, hacc⟩

end

/-- The `i`-th peer was last heard from `ep` in a run: not at all (`none`), or in a step after which it was not heard
any more. -/
def LastHeard [DecidableEq β] (S : Sodium β) (d : Daemon β) (i : ℕ) (events : List (Event β)) : Option Endpoint → Prop
  | none => ∀ pre ev post ep, events = pre ++ ev :: post → ¬ Hears S (runLoop S d pre).1 i ep ev
  | some ep => ∃ pre ev post, events = pre ++ ev :: post ∧ Hears S (runLoop S d pre).1 i ep ev ∧
      ∀ pre' ev' post' ep', post = pre' ++ ev' :: post' → ¬ Hears S (runLoop S d (pre ++ ev :: pre')).1 i ep' ev'

section

variable [DecidableEq β] {S : Sodium β} {d : Daemon β} {i : ℕ} {events : List (Event β)} {ev : Event β}

/-- A place in a list with one more item is the last one or a place in the list. -/
theorem concat_eq_append_cons {α : Type} {l pre post : List α} {x y : α} (h : l ++ [x] = pre ++ y :: post) :
    (l = pre ∧ x = y) ∨ ∃ post', post = post' ++ [x] ∧ l = pre ++ y :: post' := by
  rcases List.eq_nil_or_concat post with rfl | ⟨post', z, rfl⟩
  · obtain ⟨hpre, hlast⟩ := List.append_inj' h rfl
    exact .inl ⟨hpre, (List.cons.inj hlast).1⟩
  · rw [List.concat_eq_append, ← List.cons_append, ← List.append_assoc] at h
    obtain ⟨hpre, hlast⟩ := List.append_inj' h rfl
    obtain rfl := (List.cons.inj hlast).1
    exact .inr ⟨post', List.concat_eq_append, hpre⟩

/-- A step that does not hear the peer. -/
theorem LastHeard.quiet {heard : Option Endpoint} (h : LastHeard S d i events heard)
    (hev : ∀ ep, ¬ Hears S (runLoop S d events).1 i ep ev) : LastHeard S d i (events ++ [ev]) heard := by
  cases heard with
  | none =>
    intro pre ev' post ep heq
    rcases concat_eq_append_cons heq with ⟨rfl, rfl⟩ | ⟨post', -, hevents⟩
    · exact hev ep
    · exact h pre ev' post' ep hevents
  | some ep =>
    obtain ⟨pre, ev₀, post, rfl, hhears, hlast⟩ := h
    refine ⟨pre, ev₀, post ++ [ev], by rw [List.append_assoc, List.cons_append], hhears, ?_⟩
    intro pre' ev' post' ep' heq
    rcases concat_eq_append_cons heq with ⟨rfl, rfl⟩ | ⟨post'', -, hpost⟩
    · exact hev ep'
    · exact hlast pre' ev' post'' ep' hpost

/-- A step that does. -/
theorem LastHeard.heard {ep : Endpoint} (h : Hears S (runLoop S d events).1 i ep ev) :
    LastHeard S d i (events ++ [ev]) (some ep) :=
  ⟨events, ev, [], rfl, h, fun pre' ev' post' _ heq => by cases pre' <;> cases heq⟩

end

/-- **The endpoint of a peer follows the peer.** After every run, the endpoint of a peer is where the last datagram came
from that was accepted for the peer, as far as `endpoint_equal` can tell; it is the one the peer had at the start
when there was none. Nothing else that arrives moves it. -/
theorem endpoint_follows [DecidableEq β] (S : Sodium β) (d : Daemon β) (i : Fin d.table.peers.length)
    (events : List (Event β)) : ∃ p heard, (runLoop S d events).1.table.peers[(i : ℕ)]? = some p ∧
      LastHeard S d i events heard ∧
      match heard with
      | none => p.endpoint = (d.table.peers.get i).endpoint
      | some ep => p.endpoint = ep ∨ endpointEqual p.endpoint ep = true := by
  induction events using List.reverseRecOn with
  | nil =>
    refine ⟨d.table.peers.get i, none, by simp [runLoop], fun pre ev post ep heq => ?_, rfl⟩
    cases pre <;> cases heq
  | append_singleton events ev ih =>
    obtain ⟨p, heard, hp, hheard, hendpoint⟩ := ih
    obtain ⟨p', hp', hstep⟩ := endpoint_step (S := S) hp ev
    rw [runLoop, Machine.fst_run_concat]
    rcases hstep with ⟨hquiet, hsame⟩ | ⟨ep, hhears, hmoved⟩
    · refine ⟨p', heard, hp', hheard.quiet hquiet, ?_⟩
      rw [hsame]
      exact hendpoint
    · exact ⟨p', some ep, hp', .heard hhears, hmoved⟩

end VpnTunnel
