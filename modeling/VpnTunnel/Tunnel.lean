import VpnTunnel.Delivery
import VpnTunnel.Lib.Channel
import VpnTunnel.Rekey

/-!
# The tunnel

Two hosts run the daemon and have a session with each other. Each reads packets from its TUN device and sends
datagrams; the network between them loses datagrams, holds them back, changes their order and delivers one of
them many times. Both hosts have other peers, with their own packets, data and handshakes. This module says what
the two hosts are to those who write to one device and read from the other: a pair of channels.

## The model

A move is a packet read by one host, a datagram of the other host that arrives, named by its number, or any other
datagram that arrives. The two hosts are two states of the event loop, and the datagrams they have sent to each
other (`Hosts.step`); what is put out are the packets written to a device that were received through the link.

The purpose is a channel in each direction (`idealStep`): a packet that is routed to the other host goes in, and
comes out when the ideal window accepts its number and the receiver lets its peer use the source address. Keys,
counters, indices, bitmaps, and the endpoints to which a peer roams do not occur in it.

## The argument

The counters of a session are the numbers of the packets put in, and its filter holds the numbers put out. A move
of one host leaves the session of the other as it is, and the filter accepts what the ideal window accepts.

## What is proved

* `Corresponds.move` — a move of the hosts is a move of the channels.
* `tunnel_refines` — so a run of the hosts is a run of the channels.
* `tunnel_conserves` — a packet comes out at most as often as it went in.
* `tunnel_in_order` — if the network keeps the order, what went in comes out, in order.
-/

namespace VpnTunnel

open Octets

/-- One of two hosts. -/
inductive Side where
  /-- The first. -/
  | a
  /-- The second. -/
  | b
  deriving DecidableEq, Repr

/-- The other host. -/
def Side.other : Side → Side
  | a => b
  | b => a

@[simp] theorem Side.other_other (s : Side) : s.other.other = s := by cases s <;> rfl

theorem Side.forall_sides {P : Side → Prop} (s : Side) (h : P s) (hother : P s.other) (t : Side) : P t := by
  cases s <;> cases t <;> first | exact h | exact hother

theorem Side.other_ne (s : Side) : s.other ≠ s := by cases s <;> decide

variable {β : Type}

/-- Two sessions that belong together, as they are installed. -/
structure Link (β : Type) where
  /-- The place of the other host in the table of each. -/
  peer : Side → ℕ
  /-- The session each has installed. -/
  start : Side → Session β
  /-- It is in use. -/
  established : ∀ s, (start s).state = .established
  /-- Each addresses the session of the other. -/
  index : ∀ s, (start s).peerIndex = (start s.other).localIndex
  /-- Each receives with the key the other sends with. -/
  key : ∀ s, (start s).recvKey = (start s.other).sendKey
  /-- Nothing was sent. -/
  counter : ∀ s, (start s).sendingCounter = 0
  /-- Nothing was received. -/
  filter : ∀ s, (start s).replayFilter = replayInit

/-- The session of a host that has sent `n` packets and has received those with numbers `got`. -/
def Link.after (L : Link β) (s : Side) (n : ℕ) (got : List ℕ) : Session β :=
  { L.start s with
    sendingCounter := BitVec.ofNat 64 n
    replayFilter := replayRun (got.map (BitVec.ofNat 64)) }

theorem Link.after_zero (L : Link β) (s : Side) : L.after s 0 [] = L.start s := by
  have hcounter := L.counter s
  have hfilter := L.filter s
  unfold Link.after
  ext : 1 <;> first | rfl | exact hcounter.symm | exact hfilter.symm

/-- The two hosts, and the datagrams each has sent to the other. -/
structure Hosts (β : Type) where
  /-- The event loop of each. -/
  host : Side → Daemon β
  /-- What each has sent. -/
  wire : Side → List (List β)

/-- What happens next. -/
inductive Transit (β : Type) where
  /-- A host reads a packet from its TUN device. -/
  | packet (s : Side) (b : List β)
  /-- The `k`-th datagram of the other host arrives at a host; the rest of `r` says from where and when. -/
  | arrive (s : Side) (k : ℕ) (r : Recv β)
  /-- Some other datagram arrives at a host. -/
  | foreign (s : Side) (r : Recv β)

/-- The datagrams sent. -/
def sends : List (Effect β) → List (List β) :=
  List.filterMap fun
    | .send _ datagram => some datagram
    | _ => none

section

variable [Octet β]

/-- A packet of the TUN device that the configuration routes to the `i`-th peer. -/
def Carries (d : Daemon β) (i : ℕ) (buf : List β) : Prop :=
  d.tun.fdOpen = true ∧ 20 ≤ buf.length ∧ (peerFindByDestIp d.table (ipAt buf 16)).map Fin.val = some i

instance (d : Daemon β) (i : ℕ) (buf : List β) : Decidable (Carries d i buf) :=
  inferInstanceAs (Decidable (_ ∧ _))

/-- A packet of the `i`-th peer that the configuration lets through to the TUN device. -/
def takes (d : Daemon β) (i : ℕ) (packet : List β) : Bool :=
  d.tun.fdOpen && 20 ≤ packet.length && packet.length ≤ d.tun.mtu &&
    d.table.peers[i]?.any fun p => peerAllowsSourceIp p (ipAt packet 12)

end

variable [DecidableEq β]

/-- The packets a host has written that it received through the link. -/
def Link.writes (L : Link β) (s : Side) : List (Effect β) → List (List β) :=
  List.filterMap fun
    | .write i key _ packet => if i = L.peer s ∧ key = (L.start s).recvKey then some packet else none
    | _ => none

variable [Octet β] (S : Sodium β)

/-- A datagram arrives at a host. -/
def Hosts.receive (L : Link β) (h : Hosts β) (s : Side) (r : Recv β) : Hosts β × List (Side × List β) :=
  let out := step S (h.host s) (.udp r)
  ({ h with host := Function.update h.host s out.1 }, (L.writes s out.2).map (Prod.mk s))

/-- A move of the two hosts. -/
def Hosts.step (L : Link β) (h : Hosts β) : Transit β → Hosts β × List (Side × List β)
  | .packet s b =>
    let out := VpnTunnel.step S (h.host s) (.tun b)
    let wire := if Carries (h.host s) (L.peer s) (b.take 2048) then h.wire s ++ sends out.2 else h.wire s
    (⟨Function.update h.host s out.1, Function.update h.wire s wire⟩, [])
  | .arrive s k r =>
    match (h.wire s.other)[k]? with
    | none => (h, [])
    | some datagram => h.receive S L s { r with datagram := datagram }
  | .foreign s r => h.receive S L s r

omit [DecidableEq β] in
/-- A move of the two channels, under the configuration of the hosts `d`. -/
noncomputable def idealStep (L : Link β) (d : Side → Daemon β) (c : Side → Channel.State (List β)) :
    Transit β → (Side → Channel.State (List β)) × List (Side × List β)
  | .packet s b => (if Carries (d s) (L.peer s) b then Function.update c s ((c s).send b) else c, [])
  | .arrive s k _ =>
    let out := (c s.other).arrive replayWindowSize k
    (Function.update c s.other out.1, (out.2.filter (takes (d s) (L.peer s))).map (Prod.mk s))
  | .foreign _ _ => (c, [])

/-- A datagram that has nothing to do with the session a host has with its `i`-th peer under a key: it is not
accepted under that key, and is no initiation of that peer. There is an index for the other initiations. -/
structure Unrelated (d : Daemon β) (i : ℕ) (key : Bytes β 32) (r : Recv β) : Prop where
  /-- There is an index to give out. -/
  room : IndexRoom S d (.udp r)
  /-- It is not accepted as data of the session. -/
  data : ∀ parsed j slot plain, DataAccepted S d (r.datagram.take 2048) parsed j slot plain →
    ¬ ((j : ℕ) = i ∧ ((d.table.peers.get j).session slot).recvKey = key)
  /-- It is not accepted as an initiation of the peer. -/
  initiation : ∀ init, InitiationAccepted S d (r.datagram.take 2048) init → (init.peer : ℕ) ≠ i

/-- The moves the network and the devices make: packets are at most as long as the device says, and datagrams
other than those of the link have nothing to do with it. -/
def Link.Admits (L : Link β) (h : Hosts β) : Transit β → Prop
  | .packet _ b => b.length ≤ 1440
  | .arrive _ _ _ => True
  | .foreign s r => Unrelated S (h.host s) (L.peer s) (L.start s).recvKey r

/-! ### The session of one host -/

section

omit [DecidableEq β]

variable {S : Sodium β} {d d₀ d' : Daemon β} {i : ℕ} {idx : BitVec 32} {s sender : Session β} {b : List β} {r : Recv β}

omit [Octet β] in
/-- The configuration decides where an address is routed. -/
theorem peerFindByDestIp_congr {t t' : PeerTable β} (h : t'.peers.map Peer.config = t.peers.map Peer.config)
    (ip : BitVec 32) : (peerFindByDestIp t' ip).map Fin.val = (peerFindByDestIp t ip).map Fin.val := by
  have hidx : ∀ t : PeerTable β, (peerFindByDestIp t ip).map Fin.val =
      (t.peers.map Peer.config).findIdx? fun c => c.2.any fun cidr => vpnCidrMatch cidr ip := by
    intro t
    rw [List.findIdx?_map, peerFindByDestIp, List.findIdx?_eq_map_findFinIdx?_val]
    rfl
  rw [hidx, hidx, h]

/-- So it does what is routed to a peer and what is let through from it. -/
theorem carries_congr (htun : d'.tun = d.tun) (hconfig : d'.table.peers.map Peer.config = d.table.peers.map Peer.config)
    {buf : List β} : Carries d' i buf ↔ Carries d i buf := by
  rw [Carries, Carries, htun, peerFindByDestIp_congr hconfig]

theorem takes_congr (htun : d'.tun = d.tun) (hconfig : d'.table.peers.map Peer.config = d.table.peers.map Peer.config)
    (packet : List β) : takes d' i packet = takes d i packet := by
  have hany : ∀ d : Daemon β, (d.table.peers[i]?.any fun p => peerAllowsSourceIp p (ipAt packet 12)) =
      (d.table.peers.map Peer.config)[i]?.any fun c => c.2.any fun cidr => vpnCidrMatch cidr (ipAt packet 12) := by
    intro d
    rw [List.getElem?_map, Option.any_map]
    rfl
  rw [takes, takes, htun, hany, hany, hconfig]

/-- What a session does with a datagram that was sealed with its key: it looks at the counter only. -/
theorem sessionStep_sealed (haead : S.AeadInverts) (hkey : s.recvKey = sender.sendKey) (hlen : b.length ≤ 1440)
    (hr : r.datagram = (sealedPacket S sender b).wire) (tun : TunDevice) (p : Peer β) :
    sessionStep S tun i p s (.udp r) =
      if replayCheck s.replayFilter sender.sendingCounter then
        ({ s with replayFilter := replayUpdate s.replayFilter sender.sendingCounter },
          deliver tun i p s.recvKey sender.sendingCounter b)
      else (s, []) := by
  have hparse : packetParseData (r.datagram.take 2048) = .ok (sealedPacket S sender b) := by
    rw [hr, take_sealedPacket hlen]
    exact packetParseData_wire (by rw [length_sealedPacket]; exact hlen)
  obtain ⟨plain, hopen, hplain⟩ := vpnCryptoAeadDecrypt_ofList
    (haead.aeadDecrypt_aeadEncrypt (ofList b) [] sender.sendingCounter sender.sendKey)
  have hopens : vpnCryptoAeadDecrypt S (ofList (sealedPacket S sender b).ciphertext)
      (sealedPacket S sender b).authTag [] (sealedPacket S sender b).counter s.recvKey = .ok plain := by
    rw [hkey]
    exact hopen
  split
  · next hfresh =>
    rw [sessionStep_of_opens hparse hfresh hopens]
    exact congrArg (fun x => (_, deliver tun i p s.recvKey sender.sendingCounter x)) (hplain.trans (toList_ofList b))
  · next hfresh => exact sessionStep_of_not_opens hparse fun _ h => absurd h hfresh

end

section

variable {S : Sodium β} {d d₀ d' : Daemon β} {ev : Event β} {effects : List (Effect β)} {i : ℕ} {slot : Slot}
  {idx : BitVec 32} {s s' : Session β} {b : List β} {r : Recv β}

/-- A step serves what it leaves in place of the session. -/
theorem Serving.of_established (h : Serving d₀ i slot idx d s) (hcase : StepCase S d ev d' effects)
    (hroom : IndexRoom S d ev) (hest : d'.table.Established i slot s') (hidx : s'.localIndex = s.localIndex) :
    Serving d₀ i slot idx d' s' :=
  ⟨indexInv_step hcase hroom h.inv, hest, hidx.trans h.index, hcase.tun.trans h.tun, hcase.config.trans h.config⟩

omit [DecidableEq β] in
/-- What is routed to the peer is decided by the configuration at the start. -/
theorem Serving.carries_iff (h : Serving d₀ i slot idx d s) {buf : List β} :
    Carries d i buf ↔ Carries d₀ i buf :=
  carries_congr h.tun h.config

/-- A packet routed to the peer is sealed in the session, and takes its counter. -/
theorem Serving.sealed (h : Serving d₀ i .current idx d s) (hlen : b.length ≤ 1440) (hc : Carries d i b) :
    sends (VpnTunnel.step S d (.tun b)).2 = [(sealedPacket S s b).wire] ∧
      Serving d₀ i .current idx (VpnTunnel.step S d (.tun b)).1 { s with sendingCounter := s.sendingCounter + 1 } := by
  have hb : b.take 2048 = b := List.take_of_length_le (by omega)
  obtain ⟨hopen, hmin, hmap⟩ := hc
  obtain ⟨j, hfind, rfl⟩ := Option.map_eq_some_iff.mp hmap
  obtain ⟨p, hp, hs, hest⟩ := h.established
  have hget : d.table.peers.get j = p := by
    rw [List.getElem?_eq_getElem j.isLt] at hp
    exact Option.some.inj hp
  have hcurrent : (d.table.peers.get j).currentSession = s := by rw [hget]; exact hs
  have hroute : Routed d (b.take 2048) j := by
    rw [hb]
    exact ⟨hopen, hmin, hfind, by rw [hcurrent]; exact hest⟩
  have hstep : VpnTunnel.step S d (.tun b) = _ := tunStep_of_routed hroute
  refine ⟨?_, h.of_established (step_cases S d (.tun b)) trivial ?_ rfl⟩
  · rw [hstep, hb, sendSealed_ok hlen, hcurrent]
    rfl
  · rw [hstep]
    refine PeerTable.established_update.mpr (.inl ⟨rfl, ?_, hest⟩)
    rw [← hcurrent]
    rfl

/-- A packet that is not routed to the peer leaves the session as it is. -/
theorem Serving.passed (h : Serving d₀ i .current idx d s) (hc : ¬ Carries d i (b.take 2048)) :
    Serving d₀ i .current idx (VpnTunnel.step S d (.tun b)).1 s := by
  refine h.of_established (step_cases S d (.tun b)) trivial ?_ rfl
  by_cases hroute : ∃ j, Routed d (b.take 2048) j
  · obtain ⟨j, hroute⟩ := hroute
    have hstep : VpnTunnel.step S d (.tun b) = _ := tunStep_of_routed hroute
    rw [hstep]
    refine PeerTable.established_update.mpr (.inr ⟨?_, h.established⟩)
    rintro rfl
    exact hc ⟨hroute.fdOpen, hroute.length, by rw [hroute.find]; rfl⟩
  · have hstep : VpnTunnel.step S d (.tun b) = (d, []) := tunStep_of_not_routed (by simpa using hroute)
    rw [hstep]
    exact h.established

/-- An unrelated datagram leaves the session as it is, and writes nothing that is received through it. -/
theorem Serving.unrelated (L : Link β) (side : Side) (h : Serving d₀ (L.peer side) .current idx d s)
    (hkey : s.recvKey = (L.start side).recvKey) (hr : Unrelated S d (L.peer side) (L.start side).recvKey r) :
    L.writes side (VpnTunnel.step S d (.udp r)).2 = [] ∧
      Serving d₀ (L.peer side) .current idx (VpnTunnel.step S d (.udp r)).1 s := by
  have hcase := step_cases S d (.udp r)
  have hserving : (VpnTunnel.step S d (.udp r)).1.table.Established (L.peer side) .current s →
      Serving d₀ (L.peer side) .current idx (VpnTunnel.step S d (.udp r)).1 s :=
    fun hest => h.of_established hcase hr.room hest rfl
  generalize VpnTunnel.step S d (.udp r) = out at hcase hserving ⊢
  obtain ⟨d', effects⟩ := out
  dsimp only at hcase hserving ⊢
  cases hcase with
  | idle => exact ⟨rfl, h⟩
  | @data _ parsed j slot plain hacc =>
    have hother := hr.data parsed j slot plain hacc
    refine ⟨?_, hserving ?_⟩
    · refine List.filterMap_eq_nil_iff.mpr fun effect heffect => ?_
      obtain ⟨rfl, -⟩ := mem_deliver.mp heffect
      exact if_neg hother
    · by_cases hj : (j : ℕ) = L.peer side
      · obtain ⟨p, hp, hs, hest⟩ := h.established
        rw [← hj, List.getElem?_eq_getElem j.isLt] at hp
        have hcurrent : (d.table.peers.get j).session .current = s := by rw [← hs, ← Option.some.inj hp]; rfl
        have hslot : Slot.current ≠ slot := by
          rintro rfl
          exact hother ⟨hj, by rw [hcurrent, hkey]⟩
        exact PeerTable.established_update.mpr
          (.inl ⟨hj.symm, (Peer.session_received_of_ne hslot).trans hcurrent, hest⟩)
      · exact PeerTable.established_update.mpr (.inr ⟨fun hc => hj hc.symm, h.established⟩)
  | initiation hacc hresp =>
    exact ⟨rfl, hserving (PeerTable.established_update.mpr (.inr
      ⟨fun hc => hr.initiation _ hacc hc.symm, h.established⟩))⟩
  | unanswered hacc hresp => exact ⟨rfl, hserving h.established⟩

omit [DecidableEq β] [Octet β] in
/-- The peer is one of the configuration at the start. -/
theorem Serving.peer (h : Serving d₀ i slot idx d s) : ∃ p, d₀.table.peers[i]? = some p := by
  obtain ⟨q, hq, -⟩ := h.established
  have hmap : (d₀.table.peers.map Peer.config)[i]? = some q.config := by
    rw [← h.config, List.getElem?_map, hq, Option.map_some]
  rw [List.getElem?_map] at hmap
  obtain ⟨p, hp, -⟩ := Option.map_eq_some_iff.mp hmap
  exact ⟨p, hp⟩

omit [DecidableEq β] in
theorem takes_iff {p : Peer β} (hp : d.table.peers[i]? = some p) : takes d i b = true ↔ Deliverable d.tun p b := by
  simp only [takes, hp, Option.any_some, Bool.and_eq_true, decide_eq_true_eq, and_assoc]
  exact ⟨fun ⟨h₁, h₂, h₃, h₄⟩ => ⟨h₁, h₂, h₃, h₄⟩, fun ⟨h₁, h₂, h₃, h₄⟩ => ⟨h₁, h₂, h₃, h₄⟩⟩

/-- What a host writes of a packet received through the link. -/
theorem Link.writes_deliver (L : Link β) (side : Side) {p : Peer β} (hp : d.table.peers[L.peer side]? = some p)
    (c : BitVec 64) : L.writes side (deliver d.tun (L.peer side) p (L.start side).recvKey c b) =
      [b].filter (takes d (L.peer side)) := by
  by_cases h : Deliverable d.tun p b
  · rw [deliver_of_deliverable h, List.filter_cons_of_pos ((takes_iff hp).mpr h), List.filter_nil]
    exact List.filterMap_cons_some (if_pos ⟨rfl, rfl⟩)
  · rw [deliver_of_not_deliverable h, List.filter_cons_of_neg fun ht => h ((takes_iff hp).mp ht), List.filter_nil]
    rfl

end

/-! ### The two sessions -/

/-- The filter accepts the numbers the ideal window accepts, as long as they are counters. -/
theorem replayCheck_numbers {got : List ℕ} (hgot : ∀ x ∈ got, x < 2 ^ 64) {k : ℕ} (hk : k < 2 ^ 64) :
    replayCheck (replayRun (got.map (BitVec.ofNat 64))) (BitVec.ofNat 64 k) = true ↔
      Window.Accepts replayWindowSize {x | x ∈ got} k := by
  have hmap : (got.map (BitVec.ofNat 64)).map BitVec.toNat = got := by
    rw [List.map_map]
    refine (List.map_congr_left fun x hx => ?_).trans (List.map_id got)
    exact Nat.mod_eq_of_lt (hgot x hx)
  rw [replayCheck_replayRun, hmap, BitVec.toNat_ofNat, Nat.mod_eq_of_lt hk]

/-- After `n` moves the hosts are where the channels are: the counters are the numbers of the packets put in, the
filters hold those put out, and the datagrams are the packets put in, sealed. -/
structure Corresponds (L : Link β) (d : Side → Daemon β) (n : ℕ) (h : Hosts β) (c : Side → Channel.State (List β)) :
    Prop where
  /-- Each host serves its session. -/
  serving : ∀ s, Serving (d s) (L.peer s) .current (L.start s).localIndex (h.host s)
    (L.after s (c s).sent.length (c s.other).got)
  /-- Each has sent a datagram for each packet. -/
  wire : ∀ s, h.wire s = (c s).sent.mapIdx fun k b => (sealedPacket S (L.after s k []) b).wire
  /-- Each packet fits into a datagram. -/
  short : ∀ s, ∀ b ∈ (c s).sent, b.length ≤ 1440
  /-- Only what was put in was put out. -/
  sound : ∀ s, (c s).Sound
  /-- There was at most one packet in each move. -/
  room : ∀ s, (c s).sent.length ≤ n

section

variable {S : Sodium β} {L : Link β} {d : Side → Daemon β} {n : ℕ} {h : Hosts β} {c : Side → Channel.State (List β)}

omit [DecidableEq β] [Octet β] in
theorem Link.after_succ (s : Side) (k : ℕ) (got : List ℕ) :
    { L.after s k got with sendingCounter := (L.after s k got).sendingCounter + 1 } = L.after s (k + 1) got := by
  have hsucc : BitVec.ofNat 64 k + 1 = BitVec.ofNat 64 (k + 1) := (BitVec.ofNat_add k 1).symm
  unfold Link.after
  dsimp only
  rw [hsucc]

omit [DecidableEq β] [Octet β] in
theorem Link.after_concat (s : Side) (n : ℕ) (got : List ℕ) (k : ℕ) :
    { L.after s n got with replayFilter := replayUpdate (L.after s n got).replayFilter (BitVec.ofNat 64 k) } =
      L.after s n (got ++ [k]) := by
  unfold Link.after
  dsimp only
  rw [List.map_append, List.map_singleton, replayRun, replayRun, List.foldl_concat]

/-- What a host does with a datagram of the other host is decided by the ideal window. -/
theorem Serving.arrived (haead : S.AeadInverts) {s : Side} {d₀ d : Daemon β} {n k : ℕ} {got : List ℕ} {b : List β}
    {r : Recv β} (h : Serving d₀ (L.peer s) .current (L.start s).localIndex d (L.after s n got))
    (hgot : ∀ x ∈ got, x < 2 ^ 64) (hk : k < 2 ^ 64) (hlen : b.length ≤ 1440)
    (hr : r.datagram = (sealedPacket S (L.after s.other k []) b).wire) :
    (Window.Accepts replayWindowSize {x | x ∈ got} k ∧
        L.writes s (VpnTunnel.step S d (.udp r)).2 = [b].filter (takes d₀ (L.peer s)) ∧
        Serving d₀ (L.peer s) .current (L.start s).localIndex (VpnTunnel.step S d (.udp r)).1
          (L.after s n (got ++ [k]))) ∨
      (¬ Window.Accepts replayWindowSize {x | x ∈ got} k ∧ L.writes s (VpnTunnel.step S d (.udp r)).2 = [] ∧
        Serving d₀ (L.peer s) .current (L.start s).localIndex (VpnTunnel.step S d (.udp r)).1 (L.after s n got)) := by
  have hindex : (L.start s.other).peerIndex = (L.start s).localIndex := by rw [L.index, Side.other_other]
  have haddr : AddressedTo (L.start s).localIndex (.udp r) := by
    refine ⟨sealedPacket S (L.after s.other k []) b, ?_, hindex⟩
    rw [hr, take_sealedPacket hlen]
    exact packetParseData_wire (by rw [length_sealedPacket]; exact hlen)
  have hcheck : replayCheck (L.after s n got).replayFilter (L.after s.other k []).sendingCounter = true ↔ _ :=
    replayCheck_numbers hgot hk
  have hkey : (L.after s n got).recvKey = (L.after s.other k []).sendKey := L.key s
  obtain ⟨p, hp⟩ := h.peer
  obtain ⟨heffects, hnext⟩ := h.step (S := S) hp haddr
  rw [sessionStep_sealed haead hkey hlen hr] at heffects hnext
  by_cases hacc : Window.Accepts replayWindowSize {x | x ∈ got} k
  · rw [if_pos (hcheck.mpr hacc)] at heffects hnext
    refine .inl ⟨hacc, ?_, ?_⟩
    · rw [heffects]
      exact L.writes_deliver s hp _
    · rw [← Link.after_concat]
      exact hnext
  · rw [if_neg fun hc => hacc (hcheck.mp hc)] at heffects hnext
    exact .inr ⟨hacc, by rw [heffects]; rfl, hnext⟩

omit [DecidableEq β] in
/-- A host does something that leaves its session as it is. -/
theorem Corresponds.same (hc : Corresponds S L d n h c) {s : Side} {d' : Daemon β}
    (hnext : Serving (d s) (L.peer s) .current (L.start s).localIndex d'
      (L.after s (c s).sent.length (c s.other).got)) :
    Corresponds S L d (n + 1) { h with host := Function.update h.host s d' } c := by
  refine ⟨Side.forall_sides s ?_ ?_, hc.wire, hc.short, hc.sound, fun t => Nat.le_succ_of_le (hc.room t)⟩
  · dsimp only
    rw [Function.update_self]
    exact hnext
  · dsimp only
    rw [Function.update_of_ne s.other_ne]
    exact hc.serving s.other

omit [DecidableEq β] in
/-- A host accepts a packet of the other host. -/
theorem Corresponds.got (hc : Corresponds S L d n h c) {s : Side} {k : ℕ} {b : List β} {d' : Daemon β}
    (hk : (c s.other).sent[k]? = some b) (hacc : (c s.other).Accepts replayWindowSize k)
    (hnext : Serving (d s) (L.peer s) .current (L.start s).localIndex d'
      (L.after s (c s).sent.length ((c s.other).got ++ [k]))) :
    Corresponds S L d (n + 1) { h with host := Function.update h.host s d' }
      (Function.update c s.other { c s.other with got := (c s.other).got ++ [k] }) := by
  have hsound := (hc.sound s.other).arrive (w := replayWindowSize) k
  rw [Channel.State.arrive_of_accepts hk hacc] at hsound
  refine ⟨Side.forall_sides s ?_ ?_, Side.forall_sides s ?_ ?_, Side.forall_sides s ?_ ?_, Side.forall_sides s ?_ ?_,
    Side.forall_sides s ?_ ?_⟩ <;>
    simp only [Function.update_self, Function.update_of_ne s.other_ne, Function.update_of_ne s.other_ne.symm,
      Side.other_other]
  · exact hnext
  · have hother := hc.serving s.other
    rw [Side.other_other] at hother
    exact hother
  · exact hc.wire s
  · exact hc.wire s.other
  · exact hc.short s
  · exact hc.short s.other
  · exact hc.sound s
  · exact hsound
  · exact Nat.le_succ_of_le (hc.room s)
  · exact Nat.le_succ_of_le (hc.room s.other)

/-- **A host reads a packet.** -/
theorem Corresponds.packet (hc : Corresponds S L d n h c) (s : Side) {b : List β} (hlen : b.length ≤ 1440) :
    Corresponds S L d (n + 1) (h.step S L (.packet s b)).1 (idealStep L d c (.packet s b)).1 := by
  have hb : b.take 2048 = b := List.take_of_length_le (by omega)
  by_cases hcar : Carries (h.host s) (L.peer s) b
  · obtain ⟨hsends, hnext⟩ := (hc.serving s).sealed (S := S) hlen hcar
    have hother := hc.serving s.other
    rw [Side.other_other] at hother
    rw [Link.after_succ] at hnext
    have hideal : Carries (d s) (L.peer s) b := (hc.serving s).carries_iff.mp hcar
    simp only [Hosts.step, idealStep, hb, if_pos hcar, if_pos hideal, hsends]
    refine ⟨Side.forall_sides s ?_ ?_, Side.forall_sides s ?_ ?_, Side.forall_sides s ?_ ?_, Side.forall_sides s ?_ ?_,
      Side.forall_sides s ?_ ?_⟩ <;>
      simp only [Function.update_self, Function.update_of_ne s.other_ne, Side.other_other, Channel.State.send,
        List.length_append, List.length_singleton]
    · exact hnext
    · exact hother
    · rw [hc.wire s, List.mapIdx_concat]
      rfl
    · exact hc.wire s.other
    · intro b' hb'
      rcases List.mem_append.mp hb' with hb' | hb'
      · exact hc.short s b' hb'
      · rw [List.mem_singleton.mp hb']
        exact hlen
    · exact hc.short s.other
    · exact (hc.sound s).send b
    · exact hc.sound s.other
    · exact Nat.succ_le_succ (hc.room s)
    · exact Nat.le_succ_of_le (hc.room s.other)
  · have hideal : ¬ Carries (d s) (L.peer s) b := fun hcar' => hcar ((hc.serving s).carries_iff.mpr hcar')
    simp only [Hosts.step, idealStep, hb, if_neg hcar, if_neg hideal, Function.update_eq_self]
    exact hc.same ((hc.serving s).passed (hb.symm ▸ hcar))

/-- **A datagram of the other host arrives.** -/
theorem Corresponds.arrive (haead : S.AeadInverts) (hc : Corresponds S L d n h c) (hn : n < 2 ^ 64) (s : Side) (k : ℕ)
    (r : Recv β) : (h.step S L (.arrive s k r)).2 = (idealStep L d c (.arrive s k r)).2 ∧
      Corresponds S L d (n + 1) (h.step S L (.arrive s k r)).1 (idealStep L d c (.arrive s k r)).1 := by
  cases hk : (c s.other).sent[k]? with
  | none =>
    have hwire : (h.wire s.other)[k]? = none := by rw [hc.wire, List.getElem?_mapIdx, hk, Option.map_none]
    simp only [Hosts.step, idealStep, hwire, Channel.State.arrive_of_none hk, Function.update_eq_self]
    exact ⟨rfl, hc.serving, hc.wire, hc.short, hc.sound, fun t => Nat.le_succ_of_le (hc.room t)⟩
  | some b =>
    have hwire : (h.wire s.other)[k]? = some (sealedPacket S (L.after s.other k []) b).wire := by
      rw [hc.wire, List.getElem?_mapIdx, hk, Option.map_some]
    have hbound : ∀ x < (c s.other).sent.length, x < 2 ^ 64 := fun x hx => (hx.trans_le (hc.room s.other)).trans hn
    obtain ⟨out, hout⟩ : ∃ out, out = VpnTunnel.step S (h.host s)
      (.udp { r with datagram := (sealedPacket S (L.after s.other k []) b).wire }) := ⟨_, rfl⟩
    have harrived := (hc.serving s).arrived haead (fun x hx => hbound x ((hc.sound s.other).lt x hx))
      (hbound k (List.getElem?_eq_some_iff.mp hk).1) (hc.short s.other b (List.mem_of_getElem? hk))
      (r := { r with datagram := (sealedPacket S (L.after s.other k []) b).wire }) rfl
    rw [← hout] at harrived
    simp only [Hosts.step, idealStep, hwire, Hosts.receive, ← hout]
    rcases harrived with ⟨hacc, hwrites, hnext⟩ | ⟨hacc, hwrites, hnext⟩
    · rw [Channel.State.arrive_of_accepts hk hacc, hwrites]
      refine ⟨rfl, hc.got hk hacc hnext⟩
    · rw [Channel.State.arrive_of_not_accepts hk hacc, hwrites, Function.update_eq_self]
      exact ⟨rfl, hc.same hnext⟩

/-- **A move of the hosts is a move of the channels.** -/
theorem Corresponds.move (haead : S.AeadInverts) (hc : Corresponds S L d n h c) (hn : n < 2 ^ 64) {m : Transit β}
    (hm : L.Admits S h m) : (h.step S L m).2 = (idealStep L d c m).2 ∧
      Corresponds S L d (n + 1) (h.step S L m).1 (idealStep L d c m).1 := by
  cases m with
  | packet s b => exact ⟨rfl, hc.packet s hm⟩
  | arrive s k r => exact hc.arrive haead hn s k r
  | foreign s r =>
    obtain ⟨hwrites, hnext⟩ := (hc.serving s).unrelated L s rfl hm
    simp only [Hosts.step, idealStep, Hosts.receive, hwrites]
    exact ⟨rfl, hc.same hnext⟩

end

/-! ### Whole runs -/

/-- The two hosts have the two sessions of a link, and indices that name sessions. -/
structure Link.Joins (L : Link β) (d : Side → Daemon β) : Prop where
  /-- The indices of the sessions in use name them. -/
  inv : ∀ s, IndexInv (d s).table
  /-- The session of the link is the current one of its peer. -/
  current : ∀ s, (d s).table.Established (L.peer s) .current (L.start s)

section

variable {S : Sodium β} {L : Link β} {d : Side → Daemon β}

omit [DecidableEq β] in
theorem Link.Joins.corresponds (h : L.Joins d) : Corresponds S L d 0 ⟨d, fun _ => []⟩ fun _ => .empty where
  serving s := by
    have hstart : L.after s 0 [] = L.start s := L.after_zero s
    refine ⟨h.inv s, ?_, rfl, rfl, rfl⟩
    exact hstart ▸ h.current s
  wire _ := rfl
  short _ := nofun
  sound _ := Channel.State.sound_empty
  room _ := Nat.le_refl 0

/-- The hosts and the channels put out the same, and end where they correspond. -/
theorem Link.Joins.run (haead : S.AeadInverts) (h : L.Joins d) {moves : List (Transit β)}
    (hroom : moves.length ≤ 2 ^ 64)
    (hadmits : Machine.Along (Hosts.step S L) (fun _ h m => L.Admits S h m) [] ⟨d, fun _ => []⟩ moves) :
    Machine.outputs (Hosts.step S L) ⟨d, fun _ => []⟩ moves =
        Machine.outputs (idealStep L d) (fun _ => .empty) moves ∧
      Corresponds S L d (0 + moves.length) (Machine.run (Hosts.step S L) ⟨d, fun _ => []⟩ moves).1
        (Machine.run (idealStep L d) (fun _ => .empty) moves).1 :=
  Machine.simulates_along (Hosts.step S L) (N := 2 ^ 64) (fun _ _ _ _ _ hn hm hc => hc.move haead hn hm)
    (by omega) hadmits h.corresponds

end

/-- The two toy hosts with a session. -/
def toyHosts : Side → Daemon (BitVec 8)
  | .a => toyEnd 1 1 21 22
  | .b => toyEnd 1 1 22 21

/-- Their link. -/
def toyLink : Link (BitVec 8) where
  peer _ := 0
  start
    | .a => Session.fresh 1 1 (List.Vector.replicate 32 21) (List.Vector.replicate 32 22) 0
    | .b => Session.fresh 1 1 (List.Vector.replicate 32 22) (List.Vector.replicate 32 21) 0
  established s := by cases s <;> rfl
  index s := by cases s <;> rfl
  key s := by cases s <;> rfl
  counter s := by cases s <;> rfl
  filter s := by cases s <;> rfl

/-- The session of a toy host is the only one. -/
theorem established_toyEnd {localIdx peerIdx : BitVec 32} {send recv : BitVec 8} {i : ℕ} {slot : Slot}
    {s : Session (BitVec 8)} (h : (toyEnd localIdx peerIdx send recv).table.Established i slot s) :
    (i = 0 ∧ slot = .current) ∧ s.localIndex = localIdx := by
  obtain ⟨p, hp, rfl, hest⟩ := h
  cases i with
  | zero =>
    cases hp
    cases slot with
    | current => exact ⟨⟨rfl, rfl⟩, rfl⟩
    | previous => cases hest
  | succ i => cases hp

theorem toyLink_joins : toyLink.Joins toyHosts where
  inv s := by
    have hend : ∀ send recv, IndexInv (toyEnd 1 1 send recv).table := fun send recv => by
      refine ⟨[1], .start ?_ ?_, fun idx hidx => ?_⟩
      · rintro ⟨i, slot⟩ _ ⟨s, hs, rfl⟩
        exact List.mem_singleton.mpr (established_toyEnd hs).2
      · rintro ⟨i, slot⟩ _ ⟨j, slot'⟩ _ ⟨s, hs, rfl⟩ ⟨s', hs', rfl⟩ -
        obtain ⟨⟨rfl, rfl⟩, -⟩ := established_toyEnd hs
        obtain ⟨⟨rfl, rfl⟩, -⟩ := established_toyEnd hs'
        rfl
      · rw [List.mem_singleton.mp hidx]
        exact ⟨by decide, fun _ => (by decide : (1 : BitVec 32) < 2)⟩
    cases s <;> exact hend _ _
  current s := by cases s <;> exact ⟨_, rfl, rfl, rfl⟩

/-- A datagram that is empty. -/
def toyEmpty : Recv (BitVec 8) := ⟨Endpoint.unset, [], List.Vector.replicate 32 0, 0, 0⟩

theorem toyEmpty_unrelated (d : Daemon (BitVec 8)) (i : ℕ) (key : Bytes (BitVec 8) 32) :
    Unrelated toySodium d i key toyEmpty where
  room htype := by cases htype
  data _ _ _ _ h := by rcases h.type with htype | htype <;> cases htype
  initiation _ h := by cases h.type

/-- A packet goes from one host to the other; its datagram arrives twice, and an empty one in between. -/
def toyTransits : List (Transit (BitVec 8)) :=
  [.packet .a (List.replicate 20 1), .arrive .b 0 toyEmpty, .foreign .b toyEmpty, .arrive .b 0 toyEmpty]

theorem toyTransits_admitted : Machine.Along (Hosts.step toySodium toyLink) (fun _ h m => toyLink.Admits toySodium h m)
    [] ⟨toyHosts, fun _ => []⟩ toyTransits :=
  ⟨Nat.le_of_ble_eq_true rfl, trivial, toyEmpty_unrelated _ _ _, trivial, trivial⟩

/-- **Two hosts with a session are two channels.** Whatever packets they read, whatever datagrams of theirs arrive,
how late, in which order and how often, and whatever other peers do, in each move they write the packets
that two channels with the ideal window put out. -/
theorem tunnel_refines (S : Sodium β) (haead : S.AeadInverts) (L : Link β) (d : Side → Daemon β) (h : L.Joins d)
    (moves : List (Transit β)) (hroom : moves.length ≤ 2 ^ 64)
    (hadmits : Machine.Along (Hosts.step S L) (fun _ h m => L.Admits S h m) [] ⟨d, fun _ => []⟩ moves) :
    Machine.outputs (Hosts.step S L) ⟨d, fun _ => []⟩ moves = Machine.outputs (idealStep L d) (fun _ => .empty) moves :=
  (h.run haead hroom hadmits).1

/-- The two toy hosts are: the packet comes out once. -/
theorem tunnel_refines_toy :
    Machine.outputs (Hosts.step toySodium toyLink) ⟨toyHosts, fun _ => []⟩ toyTransits =
        [[], [(.b, List.replicate 20 1)], [], []] ∧
      Machine.outputs (Hosts.step toySodium toyLink) ⟨toyHosts, fun _ => []⟩ toyTransits =
        Machine.outputs (idealStep toyLink toyHosts) (fun _ => .empty) toyTransits :=
  ⟨by decide +kernel, tunnel_refines toySodium toySodium_correct.decrypt_encrypt toyLink toyHosts toyLink_joins
    toyTransits (by decide) toyTransits_admitted⟩

/-! ### What comes out of what went in -/

/-- The packets a host reads. -/
def reads (s : Side) : List (Transit β) → List (List β) :=
  List.filterMap fun
    | .packet t b => if t = s then some b else none
    | _ => none

/-- The numbers of the datagrams that arrive at a host. -/
def arrivals (s : Side) : List (Transit β) → List ℕ :=
  List.filterMap fun
    | .arrive t k _ => if t = s then some k else none
    | _ => none

/-- The packets of a trace that a host writes. -/
def written (s : Side) : List (Side × List β) → List (List β) :=
  List.filterMap fun w => if w.1 = s then some w.2 else none

/-- The packets a host reads that are routed to the other host. -/
def Link.carried (L : Link β) (d : Side → Daemon β) (s : Side) (moves : List (Transit β)) : List (List β) :=
  (reads s moves).filter fun b => Carries (d s) (L.peer s) b

section

omit [DecidableEq β]

variable {L : Link β} {d : Side → Daemon β} {c : Side → Channel.State (List β)} {s : Side}

omit [Octet β] in
theorem written_map (t : Side) (l : List (List β)) : written s (l.map (Prod.mk t)) = if t = s then l else [] := by
  rw [written, List.filterMap_map]
  split
  · next h => simp [h]
  · next h => simp [h]

omit [Octet β] in
theorem written_append (l l' : List (Side × List β)) : written s (l ++ l') = written s l ++ written s l' :=
  List.filterMap_append

theorem carried_concat (moves : List (Transit β)) (m : Transit β) :
    L.carried d s (moves ++ [m]) = L.carried d s moves ++ L.carried d s [m] := by
  rw [Link.carried, reads, List.filterMap_append, List.filter_append]
  rfl

theorem carried_packet (t : Side) (b : List β) :
    L.carried d s [.packet t b] = if t = s ∧ Carries (d s) (L.peer s) b then [b] else [] := by
  by_cases ht : t = s <;> by_cases hc : Carries (d s) (L.peer s) b <;> simp [Link.carried, reads, ht, hc]

omit [Octet β] in
theorem arrivals_concat (moves : List (Transit β)) (m : Transit β) :
    arrivals s (moves ++ [m]) = arrivals s moves ++ arrivals s [m] := List.filterMap_append

omit [Octet β] in
theorem arrivals_arrive (t : Side) (k : ℕ) (r : Recv β) :
    arrivals s [.arrive t k r] = if t = s then [k] else [] := by
  by_cases ht : t = s <;> simp [arrivals, ht]

/-- A channel when a packet is read. -/
theorem idealStep_packet (t s : Side) (b : List β) : (idealStep L d c (.packet t b)).1 s =
    if t = s ∧ Carries (d s) (L.peer s) b then (c s).send b else c s := by
  rw [idealStep]
  by_cases ht : t = s
  · subst ht
    by_cases hc : Carries (d t) (L.peer t) b <;> simp [hc]
  · have hno : ¬ (t = s ∧ Carries (d s) (L.peer s) b) := fun h => ht h.1
    rw [if_neg hno]
    split
    · exact Function.update_of_ne (Ne.symm ht) _ _
    · rfl

/-- The channel to a host when a datagram arrives, at this host or at the other. -/
theorem idealStep_arrive (t s : Side) (k : ℕ) (r : Recv β) : (idealStep L d c (.arrive t k r)).1 s.other =
    if t = s then ((c s.other).arrive replayWindowSize k).1 else c s.other := by
  rw [idealStep]
  by_cases ht : t = s
  · subst ht
    rw [if_pos rfl]
    exact Function.update_self _ _ _
  · have hne : s.other ≠ t.other := fun h => ht (by rw [← t.other_other, ← h, s.other_other])
    rw [if_neg ht]
    exact Function.update_of_ne hne _ _

/-- What is in the channel to a host after a move: what is read and routed to the host is put in. -/
theorem sent_idealStep (m : Transit β) (s : Side) :
    ((idealStep L d c m).1 s.other).sent = (c s.other).sent ++ L.carried d s.other [m] := by
  cases m with
  | packet t b =>
    rw [idealStep_packet, carried_packet]
    split
    · rfl
    · rw [List.append_nil]
  | arrive t k r =>
    rw [idealStep_arrive]
    split
    · exact (Channel.State.sent_arrive _ _ _).trans (List.append_nil _).symm
    · exact (List.append_nil _).symm
  | foreign t r => exact (List.append_nil _).symm

theorem sound_idealStep (m : Transit β) (s : Side) (h : (c s.other).Sound) :
    ((idealStep L d c m).1 s.other).Sound := by
  cases m with
  | packet t b =>
    rw [idealStep_packet]
    split
    · exact h.send b
    · exact h
  | arrive t k r =>
    rw [idealStep_arrive]
    split
    · exact h.arrive k
    · exact h
  | foreign t r => exact h

/-- What was put out of the channel to a host after a move: the host writes what it takes of it. -/
theorem out_idealStep (m : Transit β) (s : Side) (h : (c s.other).Sound) :
    ((idealStep L d c m).1 s.other).out.filter (takes (d s) (L.peer s)) =
      (c s.other).out.filter (takes (d s) (L.peer s)) ++ written s (idealStep L d c m).2 := by
  cases m with
  | packet t b =>
    rw [idealStep_packet]
    refine Eq.trans ?_ (List.append_nil _).symm
    split
    · rw [h.out_send]
    · rfl
  | arrive t k r =>
    rw [idealStep_arrive, idealStep, written_map]
    split
    · next ht => rw [Channel.State.out_arrive, List.filter_append, ht]
    · rw [List.append_nil]
  | foreign t r => exact (List.append_nil _).symm

/-- **What the channel to a host holds and has put out after a run.** -/
theorem idealRun_channel (moves : List (Transit β)) (s : Side) :
    ((Machine.run (idealStep L d) (fun _ => .empty) moves).1 s.other).sent = L.carried d s.other moves ∧
      ((Machine.run (idealStep L d) (fun _ => .empty) moves).1 s.other).Sound ∧
      written s (Machine.run (idealStep L d) (fun _ => .empty) moves).2 =
        ((Machine.run (idealStep L d) (fun _ => .empty) moves).1 s.other).out.filter (takes (d s) (L.peer s)) := by
  induction moves using List.reverseRecOn with
  | nil => exact ⟨rfl, Channel.State.sound_empty, rfl⟩
  | append_singleton moves m ih =>
    obtain ⟨hsent, hsound, hout⟩ := ih
    rw [Machine.run_append, Machine.run_cons, Machine.run_nil]
    refine ⟨?_, sound_idealStep m s hsound, ?_⟩
    · rw [sent_idealStep, hsent, carried_concat]
    · rw [written_append, List.append_nil, hout, out_idealStep m s hsound]

/-- **A network that keeps the order loses nothing**: when the datagrams arrive one after the other, each after it
was sent, the channel accepts them all. -/
theorem got_idealRun {moves : List (Transit β)} {n : ℕ} (horder : arrivals s moves = List.range n)
    (hsent : ∀ pre k r post, moves = pre ++ .arrive s k r :: post → k < (L.carried d s.other pre).length) :
    ((Machine.run (idealStep L d) (fun _ => .empty) moves).1 s.other).got = List.range n := by
  induction moves using List.reverseRecOn generalizing n with
  | nil => exact horder
  | append_singleton moves m ih =>
    have hpre : ∀ pre k r post, moves = pre ++ .arrive s k r :: post → k < (L.carried d s.other pre).length :=
      fun pre k r post heq => hsent pre k r (post ++ [m]) (by rw [heq, List.append_assoc, List.cons_append])
    rw [arrivals_concat] at horder
    rw [Machine.fst_run_concat]
    cases m with
    | packet t b =>
      have hgot := ih ((List.append_nil _).symm.trans horder) hpre
      rw [idealStep_packet]
      split <;> exact hgot
    | foreign t r => exact ih ((List.append_nil _).symm.trans horder) hpre
    | arrive t k r =>
      rw [arrivals_arrive] at horder
      rw [idealStep_arrive]
      by_cases ht : t = s
      · subst ht
        rw [if_pos rfl] at horder ⊢
        have hk : k < (L.carried d t.other moves).length := hsent moves k r [] rfl
        cases n with
        | zero => exact absurd horder (List.append_ne_nil_of_right_ne_nil _ (List.cons_ne_nil k []))
        | succ n =>
          rw [List.range_succ] at horder
          obtain ⟨hinit, hlast⟩ := List.append_inj' horder rfl
          obtain rfl : k = n := (List.cons.inj hlast).1
          have hgot := ih hinit hpre
          obtain ⟨b, hb⟩ : ∃ b,
              ((Machine.run (idealStep L d) (fun _ => .empty) moves).1 t.other).sent[k]? = some b := by
            rw [(idealRun_channel moves t).1]
            exact ⟨_, List.getElem?_eq_getElem hk⟩
          have hacc : ((Machine.run (idealStep L d) (fun _ => .empty) moves).1 t.other).Accepts replayWindowSize k :=
            Channel.State.accepts_of_lt fun x hx => by
              rw [hgot] at hx
              exact List.mem_range.mp hx
          rw [Channel.State.arrive_of_accepts hb hacc, List.range_succ, hgot]
      · rw [if_neg ht, List.append_nil] at horder
        rw [if_neg ht]
        exact ih horder hpre

end

/-- **A packet comes out at most as often as it went in**: of two hosts with a session, neither writes a packet
received through it more often than the other has read that packet. -/
theorem tunnel_conserves (S : Sodium β) (haead : S.AeadInverts) (L : Link β) (d : Side → Daemon β) (h : L.Joins d)
    (moves : List (Transit β)) (hroom : moves.length ≤ 2 ^ 64)
    (hadmits : Machine.Along (Hosts.step S L) (fun _ h m => L.Admits S h m) [] ⟨d, fun _ => []⟩ moves)
    (s : Side) (b : List β) :
    (written s (Machine.run (Hosts.step S L) ⟨d, fun _ => []⟩ moves).2).count b ≤ (reads s.other moves).count b := by
  rw [← Machine.flatten_outputs, (h.run haead hroom hadmits).1, Machine.flatten_outputs]
  obtain ⟨hsent, hsound, hout⟩ := idealRun_channel (L := L) (d := d) moves s
  have hcount := hsound.count_out_le b
  rw [hsent] at hcount
  rw [hout]
  exact ((List.filter_sublist.count_le b).trans hcount).trans (List.filter_sublist.count_le b)

/-- The toy hosts double nothing, though the datagram arrives twice. -/
theorem tunnel_conserves_toy : (written .b (Machine.run (Hosts.step toySodium toyLink) ⟨toyHosts, fun _ => []⟩
    toyTransits).2).count (List.replicate 20 1) ≤ 1 :=
  tunnel_conserves toySodium toySodium_correct.decrypt_encrypt toyLink toyHosts toyLink_joins toyTransits (by decide)
    toyTransits_admitted .b (List.replicate 20 1)

/-- **A network that keeps the order loses nothing.** When the datagrams of a host arrive at the other one after the
other, each after it was sent, the other writes the packets they were made of, in order, each once: all those the
one has read and routed to it that it lets the one send. What happens in between, and in the other direction,
makes no difference. -/
theorem tunnel_in_order (S : Sodium β) (haead : S.AeadInverts) (L : Link β) (d : Side → Daemon β) (h : L.Joins d)
    (moves : List (Transit β)) (hroom : moves.length ≤ 2 ^ 64)
    (hadmits : Machine.Along (Hosts.step S L) (fun _ h m => L.Admits S h m) [] ⟨d, fun _ => []⟩ moves)
    (s : Side) (n : ℕ) (horder : arrivals s moves = List.range n)
    (hsent : ∀ pre k r post, moves = pre ++ .arrive s k r :: post → k < (L.carried d s.other pre).length) :
    written s (Machine.run (Hosts.step S L) ⟨d, fun _ => []⟩ moves).2 =
      ((L.carried d s.other moves).take n).filter (takes (d s) (L.peer s)) := by
  rw [← Machine.flatten_outputs, (h.run haead hroom hadmits).1, Machine.flatten_outputs]
  obtain ⟨hin, -, hout⟩ := idealRun_channel (L := L) (d := d) moves s
  rw [hout, Channel.State.out_of_range (got_idealRun horder hsent), hin]

/-- The toy hosts lose nothing when the datagram arrives once. -/
theorem tunnel_in_order_toy : written .b (Machine.run (Hosts.step toySodium toyLink) ⟨toyHosts, fun _ => []⟩
    (toyTransits.take 2)).2 = [List.replicate 20 1] := by
  refine (tunnel_in_order toySodium toySodium_correct.decrypt_encrypt toyLink toyHosts toyLink_joins
    (toyTransits.take 2) (by decide) ⟨Nat.le_of_ble_eq_true rfl, trivial, trivial⟩ .b 1 rfl ?_).trans
    (by decide +kernel)
  rintro (_ | ⟨m, _ | ⟨m', pre⟩⟩) k r post heq
  · cases heq
  · cases heq
    decide
  · have hlen := congrArg List.length heq
    simp [toyTransits] at hlen

end VpnTunnel
