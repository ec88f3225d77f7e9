import VpnTunnel.SessionKeys
import VpnTunnel.ToySodium

/-!
# Nonces of the outbound channel

"Each packet gets a different nonce because the counter increments by 1 per packet. The
sending_counter field in vpn_session_t is the source." This module asks, over whole runs of the event
loop, whether a key and a nonce are ever used for two encryptions.

## The argument

In the terms of `OneTime`, a session is a holder of its send key that has spent the nonces of the
counters below `sending_counter` (`nonceView`). A rotation starts the counter at 0 again, but with
another key. This works as long as the counter grows; but it is a 64-bit integer that nothing
bounds, and after `2^64` packets under one key it is back at 0.

## What is proved

* `nonce_reuse` — a run in which a nonce is used twice: `2^64 + 1` packets in one session.
* `nonces_unique` — in every run whose steps all find room in the counter, no nonce is used twice.
-/

namespace VpnTunnel

open Octets OneTime

variable {β : Type}

/-- The send keys of the sessions installed. -/
def sealingKeys (trace : List (Effect β)) : List (Bytes β 32) :=
  trace.filterMap fun
    | .install _ s => some s.sendKey
    | _ => none

/-- The key and the nonce of each encryption on the outbound path. -/
def encryptions (trace : List (Effect β)) : List (Bytes β 32 × Bytes β 12) :=
  trace.filterMap fun
    | .encrypt key nonce _ => some (key, nonce)
    | _ => none

theorem sealingKeys_append (trace effects : List (Effect β)) :
    sealingKeys (trace ++ effects) = sealingKeys trace ++ sealingKeys effects :=
  List.filterMap_append

theorem encryptions_append (trace effects : List (Effect β)) :
    encryptions (trace ++ effects) = encryptions trace ++ encryptions effects :=
  List.filterMap_append

variable [Octet β]

/-- A session holds its send key, and has spent the nonces of the counters it has given out. -/
def nonceView (s : Session β) : Holder (Bytes β 32) (Bytes β 12) :=
  ⟨s.sendKey, fun nonce => ∃ c, c < s.sendingCounter ∧ nonce = vpnCryptoFormatNonce c⟩

/-- There is room in the counter: a packet is not sealed with the last one. -/
def CounterRoom (d : Daemon β) : Event β → Prop
  | .udp _ => True
  | .tun packet => ∀ i, Routed d (packet.take 2048) i →
      (d.table.peers.get i).currentSession.sendingCounter ≠ BitVec.allOnes 64

instance (d : Daemon β) : DecidablePred (CounterRoom d)
  | .udp _ => isTrue trivial
  | .tun packet => inferInstanceAs (Decidable (∀ i, Routed d (packet.take 2048) i →
      (d.table.peers.get i).currentSession.sendingCounter ≠ BitVec.allOnes 64))

variable {S : Sodium β} {trace : List (Effect β)} {d d' : Daemon β} {ev : Event β} {effects : List (Effect β)}

/-- The encryptions of a packet that is sealed: one. -/
theorem encryptions_outbound {key : Bytes β 32} {nonce : Bytes β 12} {buf : List β} {p : Peer β} :
    encryptions (.encrypt key nonce buf :: sendSealed S p buf) = [(key, nonce)] :=
  congrArg (List.cons _) (filterMap_sendSealed S (fun _ _ => rfl) p buf)

theorem sealingKeys_outbound {key : Bytes β 32} {nonce : Bytes β 12} {buf : List β} {p : Peer β} :
    sealingKeys (.encrypt key nonce buf :: sendSealed S p buf) = [] :=
  filterMap_sendSealed S (fun _ _ => rfl) p buf

/-- Sealing a packet spends the nonce of its counter, when there is room. -/
theorem Routed.inv {keys : List (Bytes β 32)} {uses : List (Bytes β 32 × Bytes β 12)} {buf : List β}
    {i : Fin d.table.peers.length} (h : Routed d buf i) (hinv : Inv keys uses (d.table.holders nonceView))
    (hroom : (d.table.peers.get i).currentSession.sendingCounter ≠ BitVec.allOnes 64) :
    Inv keys
      (uses ++ [((d.table.peers.get i).currentSession.sendKey,
        vpnCryptoFormatNonce (d.table.peers.get i).currentSession.sendingCounter)])
      ((d.table.update i (d.table.peers.get i).counted).holders nonceView) := by
  have hlt := lt_add_one_of_ne_allOnes hroom
  refine PeerTable.inv_update hinv .current (fun _ hne => Peer.session_counted_of_ne hne) h.established rfl
    ?_ ?_ (List.nodup_singleton _)
  · rintro nonce ⟨c, hc, rfl⟩
    exact ⟨c, BitVec.lt_trans hc hlt, rfl⟩
  · intro key nonce hmem
    cases List.mem_singleton.mp hmem
    refine ⟨rfl, ?_, _, hlt, rfl⟩
    rintro ⟨c, hc, heq⟩
    rw [← vpnCryptoFormatNonce_injective heq] at hc
    exact BitVec.lt_irrefl _ hc

/-- **One step uses no nonce a second time**, if it installs no key a second time and finds room in the
counter. -/
theorem StepCase.outbound_inv [DecidableEq β] (h : StepCase S d ev d' effects)
    (hkeys : (sealingKeys (trace ++ effects)).Nodup) (hroom : CounterRoom d ev)
    (hinv : Inv (sealingKeys trace) (encryptions trace) (d.table.holders nonceView)) :
    Inv (sealingKeys (trace ++ effects)) (encryptions (trace ++ effects)) (d'.table.holders nonceView) := by
  rw [sealingKeys_append] at hkeys
  rw [sealingKeys_append, encryptions_append]
  cases h with
  | idle => simpa [sealingKeys, encryptions] using hinv
  | data h =>
    rw [show sealingKeys (deliver _ _ _ _ _ _) = [] from filterMap_deliver fun _ _ _ _ => rfl,
      show encryptions (deliver _ _ _ _ _ _) = [] from filterMap_deliver fun _ _ _ _ => rfl, List.append_nil]
    refine PeerTable.inv_update hinv _ (fun _ hne => Peer.session_received_of_ne hne) (peerFindByIndex_eq_some h.find).1
      ?_ ?_ (fun hn => absurd hn List.not_mem_nil) List.nodup_nil
    · rw [Peer.session_received]
      rfl
    · rw [Peer.session_received]
      exact subset_rfl
  | initiation _ _ =>
    refine (List.append_nil (encryptions trace)).symm ▸ PeerTable.inv_rekeyed hinv fun hmem => ?_
    exact (List.nodup_append'.mp hkeys).2.2 hmem (List.mem_singleton_self _)
  | unanswered _ _ =>
    change Inv (sealingKeys trace ++ []) (encryptions trace ++ []) _
    rw [List.append_nil, List.append_nil]
    exact PeerTable.inv_same hinv rfl
  | outbound h =>
    rw [sealingKeys_outbound, encryptions_outbound, List.append_nil]
    exact h.inv hinv (hroom _ h)

/-- **Along a run each session has spent the nonces it has used**, if it starts without sessions, every session
installed has a new send key, and its steps all find room in the counter. -/
theorem nonceInv_run [DecidableEq β] {events : List (Event β)} (hstart : d.table.NoSessions)
    (hkeys : (sealingKeys (runLoop S d events).2).Nodup)
    (hroom : Machine.Along (step S) (fun _ d ev => CounterRoom d ev) [] d events) :
    Inv (sealingKeys (runLoop S d events).2) (encryptions (runLoop S d events).2)
      ((runLoop S d events).1.table.holders nonceView) :=
  Machine.run_invariant_while (step S) (P := fun trace => (sealingKeys trace).Nodup)
    (I := fun trace d => Inv (sealingKeys trace) (encryptions trace) (d.table.holders nonceView))
    (fun past effects hkeys => by rw [sealingKeys_append] at hkeys; exact (List.nodup_append'.mp hkeys).1)
    (fun trace d ev hroom hkeys hinv => (step_cases S d ev).outbound_inv hkeys hroom hinv)
    hroom (PeerTable.inv_start hstart) hkeys

/-- **No nonce is used twice** in a run of the event loop that starts without sessions, in which every
session installed has a new send key, and whose steps all find room in the counter. -/
theorem nonces_unique [DecidableEq β] (S : Sodium β) (d : Daemon β) (events : List (Event β))
    (hstart : d.table.NoSessions) (hkeys : (sealingKeys (runLoop S d events).2).Nodup)
    (hroom : Machine.Along (step S) (fun _ d ev => CounterRoom d ev) [] d events) :
    (encryptions (runLoop S d events).2).Nodup :=
  (nonceInv_run hstart hkeys hroom).once

/-- A run of the toy daemon: two packets are sealed, the session is rotated, and one more is sealed. -/
def toyOutbound : List (Event (BitVec 8)) :=
  [toyRecv (toyInitiation 7 11 1000) 13 500, .tun (List.replicate 20 1), .tun (List.replicate 24 1),
    toyRecv (toyInitiation 8 19 2000) 17 503, .tun (List.replicate 20 1)]

theorem nonces_unique_toy : (encryptions (runLoop toySodium toyDaemon toyOutbound).2).length = 3 ∧
    (encryptions (runLoop toySodium toyDaemon toyOutbound).2).Nodup := by
  have hrun : (encryptions (runLoop toySodium toyDaemon toyOutbound).2).length = 3 ∧
      (sealingKeys (runLoop toySodium toyDaemon toyOutbound).2).Nodup ∧
      Machine.Along (step toySodium) (fun _ d ev => CounterRoom d ev) [] toyDaemon toyOutbound := by
    decide +kernel
  exact ⟨hrun.1, nonces_unique toySodium toyDaemon toyOutbound noSessions_toyDaemon hrun.2.1 hrun.2.2⟩

/-! ### The counter runs out -/

/-- A packet that is routed is routed again after it was sealed, to the same peer. -/
theorem Routed.counted {buf : List β} {i : Fin d.table.peers.length} (h : Routed d buf i) :
    ∃ i', Routed { d with table := d.table.update i (d.table.peers.get i).counted } buf i' ∧
      (d.table.update i (d.table.peers.get i).counted).peers.get i' = (d.table.peers.get i).counted := by
  have hget : ∀ j (hj : j < (d.table.update i (d.table.peers.get i).counted).peers.length),
      (d.table.update i (d.table.peers.get i).counted).peers.get ⟨j, hj⟩ =
        if (i : ℕ) = j then (d.table.peers.get i).counted
        else d.table.peers.get ⟨j, by rwa [PeerTable.update, List.length_set] at hj⟩ := by
    intro j hj
    simp only [PeerTable.update, List.get_eq_getElem, List.getElem_set]
  have hi : (i : ℕ) < (d.table.update i (d.table.peers.get i).counted).peers.length := by
    rw [PeerTable.update, List.length_set]
    exact i.isLt
  have hself := (hget i hi).trans (if_pos rfl)
  obtain ⟨hallow, hfirst⟩ := peerFindByDestIp_eq_some.mp h.find
  refine ⟨⟨i, hi⟩, ⟨h.fdOpen, h.length, peerFindByDestIp_eq_some.mpr ⟨?_, ?_⟩, ?_⟩, hself⟩
  · rw [hself]
    exact hallow
  · rintro ⟨j, hj⟩ hlt
    have hlt' : j < (i : ℕ) := hlt
    rw [hget j hj, if_neg (Nat.ne_of_gt hlt')]
    exact hfirst _ hlt'
  · rw [hself]
    exact h.established

/-- Packets for one session are sealed with one counter after the other, modulo `2^64`, and nothing
is installed. -/
theorem encryptions_replicate_tun [DecidableEq β] (n : ℕ) {packet : List β} {i : Fin d.table.peers.length}
    (h : Routed d (packet.take 2048) i) :
    encryptions (runLoop S d (List.replicate n (.tun packet))).2 = (List.range n).map (fun j =>
      ((d.table.peers.get i).currentSession.sendKey,
        vpnCryptoFormatNonce ((d.table.peers.get i).currentSession.sendingCounter + BitVec.ofNat 64 j))) ∧
    sealingKeys (runLoop S d (List.replicate n (.tun packet))).2 = [] := by
  induction n generalizing d i with
  | zero => exact ⟨rfl, rfl⟩
  | succ n ih =>
    obtain ⟨i', h', hget⟩ := h.counted
    obtain ⟨hencs, hkeys⟩ := ih h'
    have hstep : step S d (.tun packet) = _ := tunStep_of_routed h
    rw [runLoop, List.replicate_succ, Machine.run_cons, hstep]
    constructor
    · rw [encryptions_append, encryptions_outbound, List.range_succ_eq_map, List.map_cons, List.map_map]
      refine congrArg₂ List.cons (by simp) (hencs.trans (List.map_congr_left fun j _ => ?_))
      rw [hget]
      simp only [Peer.counted, Function.comp, Nat.succ_eq_add_one, BitVec.ofNat_add]
      rw [BitVec.add_assoc, BitVec.add_comm 1]
      rfl
    · rw [sealingKeys_append, sealingKeys_outbound]
      exact hkeys

/-- A session is set up with the toy daemon, then `n` packets for the initiator are read from the TUN
device. -/
def toyFlood (n : ℕ) : List (Event (BitVec 8)) :=
  toyRecv (toyInitiation 7 11 1000) 13 500 :: List.replicate n (.tun (List.replicate 20 1))

/-- **A nonce is used twice**: the packet number `2^64 + 1` of a session is sealed with the counter of
the first. -/
theorem nonce_reuse : toyDaemon.table.NoSessions ∧
    (sealingKeys (runLoop toySodium toyDaemon (toyFlood (2 ^ 64 + 1))).2).Nodup ∧
    ¬ (encryptions (runLoop toySodium toyDaemon (toyFlood (2 ^ 64 + 1))).2).Nodup := by
  -- the state after the initiation, in which the packets are routed to the one peer
  have hrouted : Routed (step toySodium toyDaemon (toyRecv (toyInitiation 7 11 1000) 13 500)).1
      ((List.replicate 20 1 : List (BitVec 8)).take 2048) ⟨0, by decide +kernel⟩ := by decide +kernel
  obtain ⟨hencs, hkeys⟩ := encryptions_replicate_tun (S := toySodium) (2 ^ 64 + 1) hrouted
  rw [runLoop, toyFlood, Machine.run_cons]
  refine ⟨noSessions_toyDaemon, ?_, ?_⟩
  · rw [sealingKeys_append, show sealingKeys (Machine.run _ _ _).2 = [] from hkeys]
    decide +kernel
  · rw [encryptions_append]
    intro hnodup
    have hmap : (encryptions (Machine.run _ _ _).2).Nodup := (List.nodup_append'.mp hnodup).2.1
    rw [show encryptions (Machine.run _ _ _).2 = _ from hencs] at hmap
    have heq := List.inj_on_of_nodup_map hmap (List.mem_range.mpr (Nat.succ_pos (2 ^ 64)))
      (List.mem_range.mpr (Nat.lt_succ_self (2 ^ 64))) rfl
    exact absurd heq (by decide)

end VpnTunnel
