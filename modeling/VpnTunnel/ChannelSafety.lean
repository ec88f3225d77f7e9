import VpnTunnel.SessionKeys
import VpnTunnel.ToySodium

/-!
# The inbound channel is safe

What the daemon writes to the TUN device, over whole runs: every packet is one the other end of a
session sealed, no packet of a session is written twice, and each has a source address of the peer
that owns the session. The datagrams are any datagrams: an adversary may inject, duplicate, reorder
or change them, and initiations may rotate the sessions in between.

## The argument

A packet is written when the replay filter of its session takes its counter, and the filter has the
counter marked from then on. So a second packet with that key and counter would have to come in
through another filter. There is none: in the terms of `OneTime`, a session is a holder of its
receive key that has spent the counters its filter refuses (`inboundView`). Rotation moves a session
with its filter, and copies none.

## What is proved

* `channelInv_step`, `channelInv_run` — the invariant holds along every run that starts without
  sessions and installs no key twice.
* `accepted_of_write` — a packet is written when a datagram of the run is accepted.
* `tun_writes_safe` — what follows for the packets written.
-/

namespace VpnTunnel

open Octets OneTime

variable {β : Type}

/-- The receive keys of the sessions installed. -/
def installedKeys (trace : List (Effect β)) : List (Bytes β 32) :=
  trace.filterMap fun
    | .install _ s => some s.recvKey
    | _ => none

/-- The key and the counter of each packet written. -/
def writtenCounters (trace : List (Effect β)) : List (Bytes β 32 × BitVec 64) :=
  trace.filterMap fun
    | .write _ key c _ => some (key, c)
    | _ => none

theorem installedKeys_append (trace effects : List (Effect β)) :
    installedKeys (trace ++ effects) = installedKeys trace ++ installedKeys effects :=
  List.filterMap_append

theorem writtenCounters_append (trace effects : List (Effect β)) :
    writtenCounters (trace ++ effects) = writtenCounters trace ++ writtenCounters effects :=
  List.filterMap_append

theorem mem_installedKeys {trace : List (Effect β)} {i : ℕ} {s : Session β} (h : .install i s ∈ trace) :
    s.recvKey ∈ installedKeys trace :=
  List.mem_filterMap.mpr ⟨_, h, rfl⟩

variable [Octet β]

/-- The invariant of the inbound channel, between what was done so far and the state. -/
structure ChannelInv (trace : List (Effect β)) (d : Daemon β) : Prop where
  /-- No counter is accepted twice under one key. -/
  oneTime : Inv (installedKeys trace) (writtenCounters trace) (d.table.holders inboundView)
  /-- A session in use was installed for its peer. -/
  installed : ∀ {i slot s}, d.table.Established i slot s → ∃ s₀, .install i s₀ ∈ trace ∧ s₀.recvKey = s.recvKey

variable {S : Sodium β} {trace : List (Effect β)} {d d' : Daemon β} {ev : Event β} {effects : List (Effect β)}

omit [Octet β] in
theorem PeerTable.allows_of_config {t t' : PeerTable β} (h : t'.peers.map Peer.config = t.peers.map Peer.config)
    {i : ℕ} {ip : BitVec 32} (hallow : ∃ p, t.peers[i]? = some p ∧ peerAllowsSourceIp p ip = true) :
    ∃ p, t'.peers[i]? = some p ∧ peerAllowsSourceIp p ip = true := by
  obtain ⟨p, hp, hip⟩ := hallow
  have hi : (t'.peers.map Peer.config)[i]? = some p.config := by rw [h, List.getElem?_map, hp, Option.map_some]
  rw [List.getElem?_map, Option.map_eq_some_iff] at hi
  obtain ⟨p', hp', hcfg⟩ := hi
  refine ⟨p', hp', ?_⟩
  rw [peerAllowsSourceIp, show p'.allowedIps = p.allowedIps from congrArg Prod.snd hcfg]
  exact hip

/-- Sealing a packet writes none. -/
theorem writtenCounters_outbound {key : Bytes β 32} {nonce : Bytes β 12} {buf : List β} {p : Peer β} :
    writtenCounters (.encrypt key nonce buf :: sendSealed S p buf) = [] :=
  filterMap_sendSealed S (fun _ _ => rfl) p buf

/-! ### What a step delivers -/

/-- Only an accepted data datagram writes, the packet it carries if that can be delivered. -/
theorem StepCase.deliverable_of_write [DecidableEq β] (h : StepCase S d ev d' effects) {i : ℕ} {key : Bytes β 32}
    {c : BitVec 64} {packet : List β} (hw : .write i key c packet ∈ effects) :
    ∃ r parsed i' slot plain, ev = .udp r ∧ DataAccepted S d (r.datagram.take 2048) parsed i' slot plain ∧
      Deliverable d.tun (d.table.peers.get i') plain.toList ∧ i = i' ∧
      key = ((d.table.peers.get i').session slot).recvKey ∧ c = parsed.counter ∧ packet = plain.toList := by
  cases h with
  | idle => exact absurd hw List.not_mem_nil
  | data h =>
    obtain ⟨heq, hdeliver⟩ := mem_deliver.mp hw
    injection heq with hi hkey hc hpacket
    exact ⟨_, _, _, _, _, rfl, h, hdeliver, hi, hkey, hc, hpacket⟩
  | initiation _ _ => simp at hw
  | unanswered _ _ => simp at hw
  | outbound _ =>
    have hnone : (key, c) ∈ writtenCounters _ := List.mem_filterMap.mpr ⟨_, hw, rfl⟩
    exact absurd hnone (by rw [writtenCounters_outbound]; exact List.not_mem_nil)

/-- A session in use after a step was in use with its key, or was installed by the step. -/
theorem StepCase.established [DecidableEq β] (h : StepCase S d ev d' effects) {j : ℕ} {slot : Slot} {s : Session β}
    (hs : d'.table.Established j slot s) :
    (∃ slot' s₀, d.table.Established j slot' s₀ ∧ s₀.recvKey = s.recvKey) ∨ .install j s ∈ effects := by
  cases h with
  | idle => exact .inl ⟨slot, s, hs, rfl⟩
  | data h =>
    rcases PeerTable.established_update_slot (fun _ hne => Peer.session_received_of_ne hne) hs with
      ⟨-, hs⟩ | ⟨rfl, rfl, rfl⟩
    · exact .inl ⟨slot, s, hs, rfl⟩
    · refine .inl ⟨_, _, PeerTable.established_get _ (peerFindByIndex_eq_some h.find).1, ?_⟩
      rw [Peer.session_received]
  | initiation _ _ =>
    rcases Daemon.established_rekeyed hs with ⟨rfl, -, rfl⟩ | ⟨rfl, -, slot', hs⟩ | ⟨-, hs⟩
    · exact .inr (by simp)
    · exact .inl ⟨slot', s, hs, rfl⟩
    · exact .inl ⟨slot, s, hs, rfl⟩
  | unanswered _ _ => exact .inl ⟨slot, s, hs, rfl⟩
  | outbound h =>
    rcases PeerTable.established_update_slot (fun _ hne => Peer.session_counted_of_ne hne) hs with
      ⟨-, hs⟩ | ⟨rfl, rfl, rfl⟩
    · exact .inl ⟨slot, s, hs, rfl⟩
    · exact .inl ⟨_, _, PeerTable.established_get .current h.established, rfl⟩

/-! ### No counter twice -/

/-- An accepted data packet spends its counter in the one session that could take it again. -/
theorem DataAccepted.inv {keys : List (Bytes β 32)} {uses : List (Bytes β 32 × BitVec 64)} {buf : List β}
    {parsed : PacketData β} {i : Fin d.table.peers.length} {slot : Slot} {plain : Bytes β parsed.ciphertext.length}
    (h : DataAccepted S d buf parsed i slot plain) (hinv : Inv keys uses (d.table.holders inboundView))
    (src : Endpoint) :
    Inv keys
      (uses ++ writtenCounters (deliver d.tun i (d.table.peers.get i) ((d.table.peers.get i).session slot).recvKey
        parsed.counter plain.toList))
      ((d.table.update i ((d.table.peers.get i).received slot parsed.counter src)).holders inboundView) := by
  refine PeerTable.inv_update hinv slot (fun _ hne => Peer.session_received_of_ne hne)
    (peerFindByIndex_eq_some h.find).1 ?_ ?_ ?_ ?_
  · rw [Peer.session_received]
    rfl
  · rw [Peer.session_received]
    exact fun c hc => replayCheck_replayUpdate_of_refused _ hc
  · intro key c hw
    obtain ⟨effect, hmem, heq⟩ := List.mem_filterMap.mp hw
    rw [(mem_deliver.mp hmem).1] at heq
    cases heq
    refine ⟨rfl, fun hspent => Bool.eq_false_iff.mp hspent h.fresh, ?_⟩
    rw [Peer.session_received]
    exact replayCheck_replayUpdate_self _ _
  · by_cases hdeliver : Deliverable d.tun (d.table.peers.get i) plain.toList
    · rw [deliver_of_deliverable hdeliver]
      exact List.nodup_singleton _
    · rw [deliver_of_not_deliverable hdeliver]
      exact List.nodup_nil

/-- A step that installs no key a second time accepts no counter a second time. -/
theorem StepCase.inbound_inv [DecidableEq β] (h : StepCase S d ev d' effects)
    (hkeys : (installedKeys (trace ++ effects)).Nodup)
    (hinv : Inv (installedKeys trace) (writtenCounters trace) (d.table.holders inboundView)) :
    Inv (installedKeys (trace ++ effects)) (writtenCounters (trace ++ effects)) (d'.table.holders inboundView) := by
  rw [installedKeys_append] at hkeys
  rw [installedKeys_append, writtenCounters_append]
  cases h with
  | idle => simpa [installedKeys, writtenCounters] using hinv
  | @data r _ _ _ _ h =>
    rw [show installedKeys (deliver _ _ _ _ _ _) = [] from filterMap_deliver fun _ _ _ _ => rfl, List.append_nil]
    exact h.inv hinv r.src
  | initiation _ _ =>
    refine (List.append_nil (writtenCounters trace)).symm ▸ PeerTable.inv_rekeyed hinv fun hmem => ?_
    exact (List.nodup_append'.mp hkeys).2.2 hmem (List.mem_singleton_self _)
  | unanswered _ _ =>
    change Inv (installedKeys trace ++ []) (writtenCounters trace ++ []) _
    rw [List.append_nil, List.append_nil]
    exact PeerTable.inv_same hinv rfl
  | @outbound packet i h =>
    rw [show installedKeys (.encrypt _ _ _ :: sendSealed S _ _) = [] from
      filterMap_sendSealed S (fun _ _ => rfl) _ _, writtenCounters_outbound, List.append_nil]
    exact PeerTable.inv_update hinv .current (fun _ hne => Peer.session_counted_of_ne hne) h.established rfl subset_rfl
      (fun hn => absurd hn List.not_mem_nil) List.nodup_nil

/-! ### Runs -/

/-- **One step keeps the invariant**, if it installs no key that was installed before. -/
theorem channelInv_step [DecidableEq β] (h : StepCase S d ev d' effects)
    (hkeys : (installedKeys (trace ++ effects)).Nodup) (hinv : ChannelInv trace d) :
    ChannelInv (trace ++ effects) d' where
  oneTime := h.inbound_inv hkeys hinv.oneTime
  installed hs := by
    rcases h.established hs with ⟨slot', s₀, hs₀, hkey⟩ | hmem
    · obtain ⟨s₁, hmem, hkey₁⟩ := hinv.installed hs₀
      exact ⟨s₁, List.mem_append_left _ hmem, hkey₁.trans hkey⟩
    · exact ⟨_, List.mem_append_right _ hmem, rfl⟩

/-- **The invariant holds along every run** that starts without sessions and installs no key twice. -/
theorem channelInv_run [DecidableEq β] (hstart : d.table.NoSessions) (events : List (Event β))
    (hkeys : (installedKeys (runLoop S d events).2).Nodup) :
    ChannelInv (runLoop S d events).2 (runLoop S d events).1 := by
  refine Machine.run_invariant_while (step S) (P := fun trace => (installedKeys trace).Nodup) ?_
    (fun trace d ev _ hkeys hinv => channelInv_step (step_cases S d ev) hkeys hinv) (Machine.along_true _ [] d events)
    ?_ hkeys
  · intro past effects hkeys
    rw [installedKeys_append] at hkeys
    exact (List.nodup_append'.mp hkeys).1
  · exact ⟨PeerTable.inv_start hstart, fun hs => absurd hs (hstart _ _ _)⟩

/-- Where a packet written came from: a datagram that was accepted in a state the run came to. -/
theorem accepted_of_write [DecidableEq β] {events : List (Event β)} {i : ℕ} {key : Bytes β 32} {c : BitVec 64}
    {packet : List β} (hw : .write i key c packet ∈ (runLoop S d events).2) :
    ∃ pre r post parsed i' slot plain, events = pre ++ .udp r :: post ∧
      DataAccepted S (runLoop S d pre).1 (r.datagram.take 2048) parsed i' slot plain ∧
      Deliverable (runLoop S d pre).1.tun ((runLoop S d pre).1.table.peers.get i') plain.toList ∧ i = i' ∧
      key = (((runLoop S d pre).1.table.peers.get i').session slot).recvKey ∧ c = parsed.counter ∧
      packet = plain.toList := by
  obtain ⟨pre, ev, post, heq, hw⟩ := (Machine.mem_run _).mp hw
  obtain ⟨r, parsed, i', slot, plain, rfl, h⟩ := (step_cases S _ ev).deliverable_of_write hw
  exact ⟨pre, r, post, parsed, i', slot, plain, heq, h⟩

/-- The datagrams that arrive. -/
def datagrams (events : List (Event β)) : List (List β) :=
  events.filterMap fun
    | .udp r => some r.datagram
    | .tun _ => none

/-- **The inbound channel is safe.** Take a run that starts without sessions and in which different
sessions have different receive keys, and let a data packet that arrives in it verify under the key of
a session only when the remote end of that session sealed the plaintext under the key and the nonce
(`Remote`). Then each packet written to the TUN device is a plaintext the remote end of a session of the
peer sealed, with a source address in the peer's AllowedIPs, and for each session and counter at most
one packet is written. -/
theorem tun_writes_safe [DecidableEq β] (S : Sodium β) (Remote : Bytes β 32 → Bytes β 12 → List β → Prop)
    (d : Daemon β) (events : List (Event β)) (hstart : d.table.NoSessions)
    (hkeys : (installedKeys (runLoop S d events).2).Nodup)
    (hintegrity : ∀ key ∈ installedKeys (runLoop S d events).2, ∀ datagram ∈ datagrams events, ∀ parsed,
      packetParseData (datagram.take 2048) = .ok parsed → ∀ m, vpnCryptoAeadDecrypt S (ofList parsed.ciphertext)
        parsed.authTag [] parsed.counter key = .ok m → Remote key (vpnCryptoFormatNonce parsed.counter) m.toList) :
    (∀ i key c packet, .write i key c packet ∈ (runLoop S d events).2 →
      Remote key (vpnCryptoFormatNonce c) packet ∧
      (∃ s, .install i s ∈ (runLoop S d events).2 ∧ s.recvKey = key) ∧
      20 ≤ packet.length ∧
      ∃ p, d.table.peers[i]? = some p ∧ peerAllowsSourceIp p (ipAt packet 12) = true) ∧
    (writtenCounters (runLoop S d events).2).Nodup := by
  refine ⟨fun i key c packet hw => ?_, (channelInv_run hstart events hkeys).oneTime.once⟩
  obtain ⟨pre, r, post, parsed, i', slot, plain, rfl, hacc, hdeliver, rfl, rfl, rfl, rfl⟩ := accepted_of_write hw
  -- the session that took the datagram was installed before it arrived
  have htrace : (runLoop S d (pre ++ .udp r :: post)).2 =
      (runLoop S d pre).2 ++ (runLoop S (runLoop S d pre).1 (.udp r :: post)).2 :=
    congrArg Prod.snd (Machine.run_append (step S) d pre _)
  have hpre : (installedKeys (runLoop S d pre).2).Nodup := by
    rw [htrace, installedKeys_append] at hkeys
    exact (List.nodup_append'.mp hkeys).1
  obtain ⟨s, hs, hkey⟩ := (channelInv_run hstart pre hpre).installed
    (PeerTable.established_get _ (peerFindByIndex_eq_some hacc.find).1)
  have hmem : .install i' s ∈ (runLoop S d (pre ++ .udp r :: post)).2 := htrace ▸ List.mem_append_left _ hs
  have harrives : r.datagram ∈ datagrams (pre ++ .udp r :: post) :=
    List.mem_filterMap.mpr ⟨.udp r, List.mem_append_right _ List.mem_cons_self, rfl⟩
  refine ⟨?_, ⟨s, hmem, hkey⟩, hdeliver.length, ?_⟩
  · exact hintegrity _ (hkey ▸ mem_installedKeys hmem) _ harrives parsed hacc.parse plain hacc.opens
  · refine PeerTable.allows_of_config (config_run S d pre).symm ⟨_, ?_, hdeliver.allowed⟩
    rw [List.get_eq_getElem, List.getElem?_eq_getElem i'.isLt]

/-- A run of the toy daemon: a session is set up, a packet arrives, is replayed, the session is
rotated, and the packet is replayed once more. -/
def toyInbound : List (Event (BitVec 8)) :=
  [toyRecv (toyInitiation 7 11 1000) 13 500, toyRecv toyPacket 0 501, toyRecv toyPacket 0 502,
    toyRecv (toyInitiation 8 19 2000) 17 503, toyRecv toyPacket 0 504]

/-- The receive key of the second session. -/
def toyNextKey : Bytes (BitVec 8) 32 :=
  ((installedKeys (runLoop toySodium toyDaemon toyInbound).2).getLast?).getD (zeroBytes 32)

/-- The remote end has sealed one packet. -/
def ToySealed (key : Bytes (BitVec 8) 32) (nonce : Bytes (BitVec 8) 12) (m : List (BitVec 8)) : Prop :=
  key = toySession.recvKey ∧ nonce = vpnCryptoFormatNonce 0 ∧ m = List.replicate 20 1

/-- The packet opens under the key of the first session only, and to what was sealed. -/
theorem toyPacket_sealed {parsed : PacketData (BitVec 8)} (hparse : packetParseData (toyPacket.take 2048) = .ok parsed)
    {key : Bytes (BitVec 8) 32} (hkey : key ∈ installedKeys (runLoop toySodium toyDaemon toyInbound).2) {m}
    (hm : vpnCryptoAeadDecrypt toySodium (ofList parsed.ciphertext) parsed.authTag [] parsed.counter key = .ok m) :
    ToySealed key (vpnCryptoFormatNonce parsed.counter) m.toList := by
  have hkeys : installedKeys (runLoop toySodium toyDaemon toyInbound).2 = [toySession.recvKey, toyNextKey] := by
    decide +kernel
  have hnext : ∀ parsed, packetParseData (toyPacket.take 2048) = .ok parsed → ∀ m, vpnCryptoAeadDecrypt toySodium
      (ofList parsed.ciphertext) parsed.authTag [] parsed.counter toyNextKey ≠ .ok m := by
    decide +kernel
  obtain ⟨parsed', plain, hparse', -, hcounter, hopens, hplain⟩ := toyPacket_opens
  obtain rfl : parsed' = parsed := Except.ok.inj (hparse'.symm.trans hparse)
  rw [hkeys, List.mem_pair] at hkey
  rcases hkey with hfirst | hsecond
  · rw [hfirst, hopens] at hm
    obtain rfl := Except.ok.inj hm
    exact ⟨hfirst, by rw [hcounter], hplain⟩
  · exact absurd (hsecond ▸ hm) (hnext parsed' hparse m)

/-- It is the only data packet that arrives. -/
theorem toyInbound_data {datagram : List (BitVec 8)} (h : datagram ∈ datagrams toyInbound) {parsed}
    (hparse : packetParseData (datagram.take 2048) = .ok parsed) : datagram = toyPacket := by
  have hfirst : ∀ parsed, packetParseData ((toyInitiation 7 11 1000).take 2048) ≠ .ok parsed := by decide +kernel
  have hsecond : ∀ parsed, packetParseData ((toyInitiation 8 19 2000).take 2048) ≠ .ok parsed := by decide +kernel
  have hcases : datagram = toyInitiation 7 11 1000 ∨ datagram = toyPacket ∨ datagram = toyInitiation 8 19 2000 ∨
      datagram = toyPacket := by
    simpa [datagrams, toyInbound, toyRecv] using h
  rcases hcases with rfl | rfl | rfl | rfl
  · exact absurd hparse (hfirst parsed)
  · rfl
  · exact absurd hparse (hsecond parsed)
  · rfl

/-- In it the packet is written, once. -/
theorem tun_writes_safe_toy :
    writtenCounters (runLoop toySodium toyDaemon toyInbound).2 = [(toySession.recvKey, 0)] ∧
    (∀ i key c packet, .write i key c packet ∈ (runLoop toySodium toyDaemon toyInbound).2 →
      ToySealed key (vpnCryptoFormatNonce c) packet ∧
      (∃ s, .install i s ∈ (runLoop toySodium toyDaemon toyInbound).2 ∧ s.recvKey = key) ∧
      20 ≤ packet.length ∧
      ∃ p, toyDaemon.table.peers[i]? = some p ∧ peerAllowsSourceIp p (ipAt packet 12) = true) ∧
    (writtenCounters (runLoop toySodium toyDaemon toyInbound).2).Nodup :=
  ⟨by decide +kernel,
    tun_writes_safe toySodium ToySealed toyDaemon toyInbound noSessions_toyDaemon (by decide +kernel)
      fun _ hkey _ hdatagram _ hparse _ hm => toyPacket_sealed (toyInbound_data hdatagram hparse ▸ hparse) hkey hm⟩

end VpnTunnel
