import VpnTunnel.ToySodium
import VpnTunnel.WireCodec

/-!
# What can be changed in a data packet

"An attacker on the network must not be able to forge, alter, or tamper with packets without immediate
cryptographic detection and rejection." The octets of a data packet are protected in different ways,
and some are not: the packet is sealed without associated data, so that its header is bound only as
far as something depends on it.

    type(1)       one of two values, both handled alike
    reserved(3)   not looked at
    receiver(4)   selects the session, and with it the key
    counter(8)    is the nonce
    ciphertext, tag

A packet that is accepted is therefore one the other end has sealed, from the counter on. The index is
the one it was sent with if the other end addresses the session by its local index. The type octet and
the reserved octets may have been changed on the way: a data packet is accepted as a keepalive, which
by the description of the protocol has no payload, and its payload is delivered.

## What is proved

* `accepted_iff_canonical` — an accepted datagram is one the other end has produced exactly when its
  header is the one a sender writes, for the index it was sent to.
* `altered_header_accepted` — datagrams nobody produced that are accepted.
-/

namespace VpnTunnel

open Octets

/-- The octets of a data packet behind the receiver index do not depend on it. -/
theorem PacketData.getElem?_wire (msg : PacketData (BitVec 8)) {k : ℕ} (hk : 8 ≤ k) :
    msg.wire[k]? = ((le64Write msg.counter).toList ++ (msg.ciphertext ++ msg.authTag.toList))[k - 8]? := by
  have hlen : (wireHeader msg.wireType ++ (le32Write msg.receiverIndex).toList).length = 8 := by simp
  rw [PacketData.wire, ← List.append_assoc, List.getElem?_append_right (by omega), hlen]

/-- The header a sender writes: the type says whether there is a payload, and the reserved octets are zero. -/
def CanonicalHeader (b : List (BitVec 8)) : Prop := b.take 4 = wireHeader (if b.length = 32 then 0x04#8 else 0x03#8)

instance (b : List (BitVec 8)) : Decidable (CanonicalHeader b) := inferInstanceAs (Decidable (_ = _))

theorem PacketData.canonicalHeader_wire (msg : PacketData (BitVec 8)) : CanonicalHeader msg.wire := by
  have htype : msg.wireType = if msg.wire.length = 32 then 0x04#8 else 0x03#8 := by
    rw [PacketData.length_wire, PacketData.wireType]
    exact if_congr (by omega) rfl rfl
  rw [CanonicalHeader, ← htype, PacketData.wire, List.take_left' (length_wireHeader _)]

/-- What the other end of a session with a key has produced: `Remote c m idx` says that it has sealed `m` with
the counter `c`, for the index `idx`; then `packet_serialize_data` has made a datagram of it. -/
def Produced (S : Sodium (BitVec 8)) (key : Bytes (BitVec 8) 32)
    (Remote : BitVec 64 → List (BitVec 8) → BitVec 32 → Prop) (b : List (BitVec 8)) : Prop :=
  ∃ c m idx, Remote c m idx ∧ packetSerializeData 2048 idx c
    (vpnCryptoAeadEncrypt S (ofList m) [] c key).1.toList (vpnCryptoAeadEncrypt S (ofList m) [] c key).2 = .ok b

section

variable {S : Sodium (BitVec 8)} {key : Bytes (BitVec 8) 32}
  {Remote : BitVec 64 → List (BitVec 8) → BitVec 32 → Prop} {d : Daemon (BitVec 8)} {buf : List (BitVec 8)}
  {parsed : PacketData (BitVec 8)} {i : Fin d.table.peers.length} {slot : Slot}
  {plain : Bytes (BitVec 8) parsed.ciphertext.length}

theorem Produced.canonicalHeader (h : Produced S key Remote buf) : CanonicalHeader buf := by
  obtain ⟨c, m, idx, -, hb⟩ := h
  rw [(packetSerializeData_eq_ok.mp hb).2]
  exact PacketData.canonicalHeader_wire _

/-- A datagram that was accepted was read in full. -/
theorem DataAccepted.take_eq {r : Recv (BitVec 8)} (h : DataAccepted S d (r.datagram.take 2048) parsed i slot plain) :
    r.datagram.take 2048 = r.datagram := by
  obtain ⟨⟨-, hmax⟩, -⟩ := packetData_wire_eq h.parse
  rw [List.length_take] at hmax
  exact List.take_of_length_le (by omega)

/-- What was accepted is what its plaintext is sealed to. -/
theorem DataAccepted.sealed (hS : S.AeadExact) (h : DataAccepted S d buf parsed i slot plain) :
    (vpnCryptoAeadEncrypt S (ofList plain.toList) [] parsed.counter
        ((d.table.peers.get i).session slot).recvKey).1.toList = parsed.ciphertext ∧
      (vpnCryptoAeadEncrypt S (ofList plain.toList) [] parsed.counter
        ((d.table.peers.get i).session slot).recvKey).2 = parsed.authTag := by
  have henc := (hS _ _ _ _ _ _).mp (vpnCryptoAeadDecrypt_eq_ok.mp h.opens)
  obtain ⟨hc, htag⟩ := vpnCryptoAeadEncrypt_ofList (S := S) plain [] parsed.counter
    ((d.table.peers.get i).session slot).recvKey
  rw [hc, htag, vpnCryptoAeadEncrypt, henc, toList_ofList]
  exact ⟨rfl, rfl⟩

/-- What was accepted, sent to some index, is a datagram that agrees with it from the counter on. -/
theorem DataAccepted.produced (hS : S.AeadExact) (h : DataAccepted S d buf parsed i slot plain) {idx : BitVec 32}
    (hremote : Remote parsed.counter plain.toList idx) :
    Produced S ((d.table.peers.get i).session slot).recvKey Remote
      (PacketData.wire ⟨idx, parsed.counter, parsed.ciphertext, parsed.authTag⟩) := by
  obtain ⟨⟨-, hmax⟩, -, hlen, -⟩ := packetData_wire_eq h.parse
  obtain ⟨hc, htag⟩ := h.sealed hS
  refine ⟨parsed.counter, plain.toList, idx, hremote, ?_⟩
  rw [hc, htag]
  exact packetSerializeData_ok (by omega) _ _ _

/-- A datagram that was produced and is accepted was sealed for the index of the session. -/
theorem DataAccepted.remote_of_produced (hS : S.AeadExact) (h : DataAccepted S d buf parsed i slot plain)
    (hbuf : Produced S ((d.table.peers.get i).session slot).recvKey Remote buf) :
    Remote parsed.counter plain.toList ((d.table.peers.get i).session slot).localIndex := by
  obtain ⟨c, m, idx, hremote, hb⟩ := hbuf
  obtain ⟨-, hwire⟩ := packetSerializeData_eq_ok.mp hb
  obtain ⟨⟨-, hmax⟩, -⟩ := packetData_wire_eq h.parse
  rw [hwire, PacketData.length_wire] at hmax
  -- the parser gives back the fields that were laid out
  have hparse := h.parse
  rw [hwire, packetParseData_wire (by dsimp only at hmax ⊢; omega)] at hparse
  obtain rfl := Except.ok.inj hparse
  have hinverts : vpnCryptoAeadDecrypt S (vpnCryptoAeadEncrypt S (ofList m) [] c _).1
      (vpnCryptoAeadEncrypt S (ofList m) [] c _).2 [] c ((d.table.peers.get i).session slot).recvKey = .ok (ofList m) :=
    vpnCryptoAeadDecrypt_eq_ok.mpr ((hS _ _ _ _ _ _).mpr rfl)
  obtain ⟨m', hopens, hm'⟩ := vpnCryptoAeadDecrypt_ofList hinverts
  obtain rfl := Except.ok.inj (h.opens.symm.trans hopens)
  rw [hm', toList_ofList, (peerFindByIndex_eq_some h.find).2]
  exact hremote

end

/-- **What an accepted datagram has in common with one that was sent.** The library decrypts nothing but what
was encrypted, and the sealed part of this datagram opens under the key of the session that takes it only to
what the other end has sealed with its counter. Then the datagram agrees with one the other end has produced
from the counter on, and it is one the other end has produced exactly when it has the header a sender writes
and the other end sealed it for the local index of the session. -/
theorem accepted_iff_canonical (S : Sodium (BitVec 8)) (hS : S.AeadExact) (d : Daemon (BitVec 8)) (r : Recv (BitVec 8))
    (parsed : PacketData (BitVec 8)) (i : Fin d.table.peers.length) (slot : Slot)
    (plain : Bytes (BitVec 8) parsed.ciphertext.length)
    (haccepted : DataAccepted S d (r.datagram.take 2048) parsed i slot plain)
    (Remote : BitVec 64 → List (BitVec 8) → BitVec 32 → Prop)
    (hintegrity : ∀ m, vpnCryptoAeadDecrypt S (ofList parsed.ciphertext) parsed.authTag [] parsed.counter
        ((d.table.peers.get i).session slot).recvKey = .ok m → ∃ idx, Remote parsed.counter m.toList idx) :
    (∃ sent, Produced S ((d.table.peers.get i).session slot).recvKey Remote sent ∧
      sent.length = r.datagram.length ∧ ∀ k, 8 ≤ k → sent[k]? = r.datagram[k]?) ∧
    (Produced S ((d.table.peers.get i).session slot).recvKey Remote r.datagram ↔
      CanonicalHeader r.datagram ∧
        Remote parsed.counter plain.toList ((d.table.peers.get i).session slot).localIndex) := by
  rw [haccepted.take_eq] at haccepted
  obtain ⟨⟨hmin, -⟩, -, hlen, hwire⟩ := packetData_wire_eq haccepted.parse
  constructor
  · obtain ⟨idx, hremote⟩ := hintegrity plain haccepted.opens
    refine ⟨_, haccepted.produced hS hremote, ?_, fun k hk => ?_⟩
    · rw [PacketData.length_wire]
      dsimp only
      omega
    · have hdatagram : parsed.wire[k]? = r.datagram[k]? := by rw [hwire, getElem?_wireHeader_append (by omega)]
      rw [← hdatagram, PacketData.getElem?_wire _ hk, PacketData.getElem?_wire _ hk]
  · constructor
    · exact fun hproduced => ⟨hproduced.canonicalHeader, haccepted.remote_of_produced hS hproduced⟩
    · rintro ⟨hheader, hremote⟩
      have hsame : r.datagram = parsed.wire := by
        have htype := PacketData.canonicalHeader_wire parsed
        have hwirelen : parsed.wire.length = r.datagram.length := by rw [PacketData.length_wire, hlen]; omega
        rw [← List.take_append_drop 4 r.datagram, hheader, hwire, ← hwirelen, ← htype]
        rw [hwire, List.take_left' (length_wireHeader _)]
      rw [hsame]
      have hidx := (peerFindByIndex_eq_some haccepted.find).2
      exact haccepted.produced hS (hidx ▸ hremote)

/-- The toy daemon accepts the packet made for its session, and it opens to what was sealed. -/
theorem toyPacket_accepted : ∃ parsed plain, DataAccepted toySodium toyEstablished (toyPacket.take 2048) parsed toyIndex
    .current plain ∧ parsed.counter = 0 ∧ plain.toList = List.replicate 20 1 := by
  obtain ⟨parsed, plain, hparse, hindex, hcounter, hopens, hplain⟩ := toyPacket_opens
  have hkey : ((toyEstablished.table.peers.get toyIndex).session .current).recvKey = toySession.recvKey :=
    congrArg Session.recvKey toyEstablished_session.1
  refine ⟨parsed, plain, ⟨by decide +kernel, hparse, ?_, ?_, hkey.symm ▸ hopens⟩, hcounter, hplain⟩
  · rw [hindex]
    decide +kernel
  · rw [hcounter]
    decide +kernel

/-- The other end has sealed one packet, for index 1. -/
def ToyRemote (c : BitVec 64) (m : List (BitVec 8)) (idx : BitVec 32) : Prop :=
  c = 0 ∧ m = List.replicate 20 1 ∧ idx = 1

/-- It is the one accepted. -/
theorem accepted_iff_canonical_toy :
    (∃ sent, Produced toySodium ((toyEstablished.table.peers.get toyIndex).session .current).recvKey ToyRemote sent ∧
      sent.length = toyPacket.length ∧ ∀ k, 8 ≤ k → sent[k]? = toyPacket[k]?) ∧
    Produced toySodium ((toyEstablished.table.peers.get toyIndex).session .current).recvKey ToyRemote toyPacket := by
  obtain ⟨parsed, plain, haccepted, hcounter, hplain⟩ := toyPacket_accepted
  have hsafe := accepted_iff_canonical toySodium toySodium_aeadExact toyEstablished
    ⟨⟨.inet 9 0x7f000001, 16⟩, toyPacket, List.Vector.replicate 32 0, 501, 501⟩ parsed toyIndex .current plain haccepted
    ToyRemote (fun m hm => by
      obtain rfl := Except.ok.inj (haccepted.opens.symm.trans hm)
      exact ⟨1, hcounter, hplain, rfl⟩)
  exact ⟨hsafe.1, hsafe.2.mpr ⟨by decide +kernel, hcounter, hplain, by decide +kernel⟩⟩

/-- **A data packet is accepted with its header altered**, and its payload is delivered: as a keepalive, or with
a reserved octet set. The other end has produced neither, whatever it has sealed. -/
theorem altered_header_accepted :
    ((step toySodium toyEstablished (toyRecv (toyPacket.set 0 0x04#8) 0 501)).2 =
        [.write 0 toySession.recvKey 0 (List.replicate 20 1)] ∧
      ∀ Remote, ¬ Produced toySodium toySession.recvKey Remote (toyPacket.set 0 0x04#8)) ∧
    ((step toySodium toyEstablished (toyRecv (toyPacket.set 1 0xff#8) 0 501)).2 =
        [.write 0 toySession.recvKey 0 (List.replicate 20 1)] ∧
      ∀ Remote, ¬ Produced toySodium toySession.recvKey Remote (toyPacket.set 1 0xff#8)) := by
  have htype : ¬ CanonicalHeader (toyPacket.set 0 0x04#8) := by decide +kernel
  have hreserved : ¬ CanonicalHeader (toyPacket.set 1 0xff#8) := by decide +kernel
  exact ⟨⟨by decide +kernel, fun _ h => htype h.canonicalHeader⟩,
    ⟨by decide +kernel, fun _ h => hreserved h.canonicalHeader⟩⟩

end VpnTunnel
