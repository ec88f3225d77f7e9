import VpnTunnel.ToySodium

/-!
# Delivery from end to end

A packet goes through two daemons: the first reads it from its TUN device, seals it and sends a
datagram; the second receives the datagram, opens it and writes the packet to its own TUN device. This
module proves that what comes out is what went in, once.

## The argument

Each stage of the outbound path has a counterpart on the inbound path that undoes it: the datagram is
parsed as it was serialised, its index finds the session it was made for (`Counterpart`), the seal
opens, and what is checked of the packet holds of it. The counter is then marked in the filter of the
one session that has the index, and as long as no initiation replaces sessions, every session with that
index refuses it (`Refuses`), whatever else arrives.

## What is proved

* `Counterpart.dataAccepted` — the datagram is accepted and opens to the packet.
* `Refuses.run` — once refused, a counter is refused in every state of a run without initiations.
* `delivered_once` — the packet is written exactly as it was read, and the datagram is dropped from then on.
-/

namespace VpnTunnel

open Octets

variable {β : Type} [Octet β]

/-- The data packet a session makes of a packet read from the TUN device. -/
def sealedPacket (S : Sodium β) (s : Session β) (b : List β) : PacketData β :=
  let sealed := vpnCryptoAeadEncrypt S (ofList b) [] s.sendingCounter s.sendKey
  ⟨s.peerIndex, s.sendingCounter, sealed.1.toList, sealed.2⟩

/-- The session of a receiver that a session of a sender talks to: the only one in use with the index
the sender addresses, with the sender's key, and with a filter that takes the sender's counter. -/
structure Counterpart (s : Session β) (t : PeerTable β) (i : Fin t.peers.length) (slot : Slot) : Prop where
  /-- The index is not the reserved one. -/
  ne_zero : s.peerIndex ≠ 0
  /-- The session is in use. -/
  established : ((t.peers.get i).session slot).state = .established
  /-- It has the index. -/
  index : ((t.peers.get i).session slot).localIndex = s.peerIndex
  /-- It is the only one. -/
  only : ∀ (j : Fin t.peers.length) slot', ((t.peers.get j).session slot').state = .established →
    ((t.peers.get j).session slot').localIndex = s.peerIndex → j = i ∧ slot' = slot
  /-- It has the key. -/
  key : ((t.peers.get i).session slot).recvKey = s.sendKey
  /-- Its filter takes the counter. -/
  fresh : replayCheck ((t.peers.get i).session slot).replayFilter s.sendingCounter = true

/-- Every session in use with an index refuses a counter. -/
def Refuses (t : PeerTable β) (idx : BitVec 32) (c : BitVec 64) : Prop :=
  ∀ j slot s, t.Established j slot s → s.localIndex = idx → replayCheck s.replayFilter c = false

/-- The event is not an initiation that is accepted. -/
def NoInitiation [DecidableEq β] (S : Sodium β) (d : Daemon β) : Event β → Prop
  | .udp r => ∀ init, handshakeConsumeInitiation S (r.datagram.take 2048) d.staticPriv d.staticPub d.table ≠ .ok init
  | .tun _ => True

instance [DecidableEq β] (S : Sodium β) (d : Daemon β) : DecidablePred (NoInitiation S d)
  | .udp r =>
    Except.decidableForallOk (handshakeConsumeInitiation S (r.datagram.take 2048) d.staticPriv d.staticPub d.table)
  | .tun _ => isTrue trivial

variable {S : Sodium β} {d d' : Daemon β} {s : Session β} {i : Fin d.table.peers.length} {slot : Slot} {b : List β}

/-! ### Out and in -/

theorem length_sealedPacket : (sealedPacket S s b).ciphertext.length = b.length := by
  simp [sealedPacket]

/-- A packet that fits is sent. -/
theorem sendSealed_ok {p : Peer β} (h : b.length ≤ 1440) :
    sendSealed S p b = [.send p.endpoint (sealedPacket S p.currentSession b).wire] := by
  unfold sendSealed
  dsimp only
  rw [packetSerializeData_ok (by simp; omega)]
  rfl

/-- The datagram fits into the receiver's buffer. -/
theorem take_sealedPacket (h : b.length ≤ 1440) :
    (sealedPacket S s b).wire.take 2048 = (sealedPacket S s b).wire :=
  List.take_of_length_le (by rw [PacketData.length_wire, length_sealedPacket]; omega)

/-- **The datagram is accepted by the counterpart, and opens to the packet.** -/
theorem Counterpart.dataAccepted (haead : S.AeadInverts) (h : Counterpart s d.table i slot) (hlen : b.length ≤ 1440) :
    ∃ plain, DataAccepted S d (sealedPacket S s b).wire (sealedPacket S s b) i slot plain ∧ plain.toList = b := by
  obtain ⟨plain, hopen, hplain⟩ := vpnCryptoAeadDecrypt_ofList
    (haead.aeadDecrypt_aeadEncrypt (ofList b) [] s.sendingCounter s.sendKey)
  refine ⟨plain, ⟨packetPeekType_data _, packetParseData_wire (by rw [length_sealedPacket]; exact hlen),
    peerFindByIndex_of_unique h.ne_zero h.established h.index h.only, h.fresh, ?_⟩, hplain.trans (toList_ofList b)⟩
  rw [h.key]
  exact hopen

/-! ### Never again -/

omit [Octet β] in
/-- When a counter is marked in the only session with its index, that index refuses it. -/
theorem Counterpart.refuses (h : Counterpart s d.table i slot) (src : Endpoint) :
    Refuses (d.table.update i ((d.table.peers.get i).received slot s.sendingCounter src)) s.peerIndex
      s.sendingCounter := by
  intro j slot' s' hs hidx
  rcases PeerTable.established_update_slot (fun _ hne => Peer.session_received_of_ne hne) hs with
    ⟨hother, p, hp, rfl, hest⟩ | ⟨-, -, rfl⟩
  · obtain ⟨hj, rfl⟩ := List.getElem?_eq_some_iff.mp hp
    obtain ⟨hji, hslot⟩ := h.only ⟨j, hj⟩ slot' hest hidx
    exact absurd ⟨congrArg Fin.val hji, hslot⟩ hother
  · rw [Peer.session_received]
    exact replayCheck_replayUpdate_self _ _

variable {idx : BitVec 32} {c : BitVec 64} {ev : Event β} {effects : List (Effect β)}

/-- **One step does not make a refused counter acceptable**, unless it accepts an initiation. -/
theorem Refuses.step [DecidableEq β] (href : Refuses d.table idx c) (h : StepCase S d ev d' effects)
    (hno : NoInitiation S d ev) : Refuses d'.table idx c := by
  cases h with
  | idle => exact href
  | @data r parsed i slot plain h =>
    intro j slot' s hs hidx
    rcases PeerTable.established_update_slot (fun _ hne => Peer.session_received_of_ne hne) hs with
      ⟨-, hs⟩ | ⟨rfl, rfl, rfl⟩
    · exact href _ _ _ hs hidx
    · rw [Peer.session_received] at hidx ⊢
      exact replayCheck_replayUpdate_of_refused _
        (href _ _ _ (PeerTable.established_get _ (peerFindByIndex_eq_some h.find).1) hidx)
  | initiation h _ => exact absurd h.consume (hno _)
  | unanswered h _ => exact absurd h.consume (hno _)
  | @outbound packet i h =>
    intro j slot' s hs hidx
    rcases PeerTable.established_update_slot (fun _ hne => Peer.session_counted_of_ne hne) hs with
      ⟨-, hs⟩ | ⟨rfl, rfl, rfl⟩
    · exact href _ _ _ hs hidx
    · have hold := href _ _ _ (PeerTable.established_get .current h.established) hidx
      exact hold

/-- **Nor does a run without initiations.** -/
theorem Refuses.run [DecidableEq β] (href : Refuses d.table idx c) {events : List (Event β)}
    (hno : Machine.Along (VpnTunnel.step S) (fun _ d ev => NoInitiation S d ev) [] d events) :
    Refuses (runLoop S d events).1.table idx c :=
  Machine.run_invariant (VpnTunnel.step S) (I := fun _ d => Refuses d.table idx c)
    (fun _ d ev hno href => href.step (step_cases S d ev) hno) hno href

/-- A datagram with a counter that its index refuses is dropped. -/
theorem Refuses.dropped [DecidableEq β] (href : Refuses d.table (sealedPacket S s b).receiverIndex s.sendingCounter)
    (hlen : b.length ≤ 1440) {r : Recv β} (hr : r.datagram = (sealedPacket S s b).wire) : udpStep S d r = (d, []) := by
  have hbuf : r.datagram.take 2048 = (sealedPacket S s b).wire := by rw [hr, take_sealedPacket hlen]
  refine udpStep_of_not_accepted ?_ ?_ <;> rw [hbuf]
  · intro parsed i slot plain h
    cases (packetParseData_wire (by rw [length_sealedPacket]; exact hlen)).symm.trans h.parse
    obtain ⟨hest, hidx⟩ := peerFindByIndex_eq_some h.find
    have hfalse := href _ _ _ (PeerTable.established_get slot hest) hidx
    exact absurd (h.fresh.symm.trans hfalse) (by decide)
  · intro init h
    rcases packetPeekType_data (sealedPacket S s b) with htype | htype <;> cases htype.symm.trans h.type

/-- **A packet is delivered as it was read, once.** A packet of 20 to 1440 octets is read from the TUN device
of the sender and routed to a peer with a session; the receiver has the counterpart of that session, of
a peer that may use the packet's source address. The sender then emits a datagram; whenever the
receiver gets it, it writes the packet, and in every state it then reaches without accepting an
initiation it drops the datagram. -/
theorem delivered_once [DecidableEq β] (S : Sodium β) (haead : S.AeadInverts) (sender receiver : Daemon β) (b : List β)
    (hmin : 20 ≤ b.length) (hmax : b.length ≤ 1440) (i : Fin sender.table.peers.length) (hroute : Routed sender b i)
    (htun : receiver.tun = ⟨true, 1440⟩) (j : Fin receiver.table.peers.length) (slot : Slot)
    (hcounterpart : Counterpart (sender.table.peers.get i).currentSession receiver.table j slot)
    (hallow : peerAllowsSourceIp (receiver.table.peers.get j) (ipAt b 12) = true) :
    ∃ datagram, (step S sender (.tun b)).2 =
        [.encrypt (sender.table.peers.get i).currentSession.sendKey
            (vpnCryptoFormatNonce (sender.table.peers.get i).currentSession.sendingCounter) b,
          .send (sender.table.peers.get i).endpoint datagram] ∧
      ∀ r : Recv β, r.datagram = datagram →
        (step S receiver (.udp r)).2 = [.write j (sender.table.peers.get i).currentSession.sendKey
          (sender.table.peers.get i).currentSession.sendingCounter b] ∧
        ∀ events, Machine.Along (step S) (fun _ d ev => NoInitiation S d ev) [] (step S receiver (.udp r)).1 events →
          ∀ r' : Recv β, r'.datagram = datagram →
            step S (runLoop S (step S receiver (.udp r)).1 events).1 (.udp r') =
              ((runLoop S (step S receiver (.udp r)).1 events).1, []) := by
  have hb : b.take 2048 = b := List.take_of_length_le (by omega)
  refine ⟨(sealedPacket S (sender.table.peers.get i).currentSession b).wire, ?_, fun r hr => ?_⟩
  · have hstep : (step S sender (.tun b)).2 = _ := congrArg Prod.snd (tunStep_of_routed (S := S) (hb.symm ▸ hroute))
    rw [hb, sendSealed_ok hmax] at hstep
    exact hstep
  · obtain ⟨plain, haccept, hplain⟩ := hcounterpart.dataAccepted haead hmax
    rw [← take_sealedPacket hmax, ← hr] at haccept
    have hstep : step S receiver (.udp r) = _ := udpStep_of_data haccept
    have hdeliver : Deliverable receiver.tun (receiver.table.peers.get j) b :=
      ⟨by rw [htun], hmin, by rw [htun]; exact hmax, hallow⟩
    refine ⟨?_, fun events hno r' hr' => ?_⟩
    · rw [hstep, hplain, hcounterpart.key]
      exact deliver_of_deliverable hdeliver
    · rw [hstep] at hno ⊢
      exact ((hcounterpart.refuses r.src).run hno).dropped hmax hr'

/-- The toy daemon with a session. -/
def toyEnd (localIdx peerIdx : BitVec 32) (send recv : BitVec 8) : Daemon (BitVec 8) :=
  let session :=
    Session.fresh localIdx peerIdx (List.Vector.replicate 32 send) (List.Vector.replicate 32 recv) 0
  { toyDaemon with table := ⟨[{ toyPeer with currentSession := session }], Nat.le_of_ble_eq_true rfl, 2⟩ }

/-- A packet of 20 octets goes from one end to the other. -/
theorem delivered_once_toy : ∃ datagram, ∀ r : Recv (BitVec 8), r.datagram = datagram →
    (step toySodium (toyEnd 1 7 22 21) (.udp r)).2 =
      [.write 0 (List.Vector.replicate 32 21) 0 (List.replicate 20 1)] := by
  obtain ⟨datagram, -, hdeliver⟩ := delivered_once toySodium toySodium_correct.decrypt_encrypt (toyEnd 7 1 21 22)
    (toyEnd 1 7 22 21) (List.replicate 20 1) (by decide) (by decide) ⟨0, by decide⟩ ⟨rfl, by decide, by decide, rfl⟩ rfl
    ⟨0, by decide⟩ .current
    { ne_zero := by decide
      established := rfl
      index := rfl
      only := fun j slot hest _ => by
        obtain rfl : j = ⟨0, by decide⟩ := Fin.ext (Nat.lt_one_iff.mp j.isLt)
        cases slot with
        | current => exact ⟨rfl, rfl⟩
        | previous => exact absurd hest (by decide)
      key := rfl
      fresh := by decide } (by decide)
  exact ⟨datagram, fun r hr => (hdeliver r hr).1⟩

end VpnTunnel
