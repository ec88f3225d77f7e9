import VpnTunnel.Packet

/-!
# The wire format, both ways

The three datagrams of `src/packet.c` over real bytes: what a serialiser writes is dispatched and
parsed back to the same fields, and what a parser accepts is written back from the parsed fields, up
to the octets the parser does not look at.

## The argument

The fields of a datagram that parses lie one behind the other and end with it, and an integer read
from bytes is written as the same bytes. So the fields laid out again are the datagram from octet 4
on, behind a fresh header (`…_wire_eq`). The parsers of the handshake messages check the type octet, the
data parser takes either of two, and none looks at octets 1 to 3.

## What is proved

* `packetHandshakeInit_wire_eq`, `packetHandshakeResp_wire_eq`, `packetData_wire_eq` — what is laid out
  again, for each format.
* `wire_codec` — the round trips, for the three formats and both ways.
-/

namespace VpnTunnel

open Octets

/-! ### Integers -/

theorem le32Write_le32Read (p : Bytes (BitVec 8) 4) : le32Write (le32Read p) = p :=
  List.Vector.eq _ _ (leWriteFrom_leReadFrom_toList p le_rfl)

theorem le64Write_le64Read (p : Bytes (BitVec 8) 8) : le64Write (le64Read p) = p :=
  List.Vector.eq _ _ (leWriteFrom_leReadFrom_toList p le_rfl)

/-! ### What parses -/

section

variable {buf : List (BitVec 8)}

/-- The fields of an initiation that parses are what stands behind its header. -/
theorem packetHandshakeInit_wire_eq {msg : PacketHandshakeInit (BitVec 8)}
    (h : packetParseHandshakeInit buf = .ok msg) :
    buf.length = 148 ∧ buf[0]? = some 0x01#8 ∧ msg.wire = wireHeader 0x01#8 ++ buf.drop 4 := by
  obtain ⟨hlen, htype, rfl⟩ := packetParseHandshakeInit_eq_ok.mp h
  refine ⟨hlen, ?_, ?_⟩
  · rw [List.getElem?_eq_getElem (by omega)]
    exact congrArg some htype
  · simp only [PacketHandshakeInit.wire, le32Write_le32Read]
    rw [toList_slice_of_end 132 _ (by omega), toList_slice_append_drop 116, toList_slice_append_drop 88,
      toList_slice_append_drop 40, toList_slice_append_drop 8, toList_slice_append_drop 4]
    rfl

/-- So are those of a response. -/
theorem packetHandshakeResp_wire_eq {msg : PacketHandshakeResp (BitVec 8)}
    (h : packetParseHandshakeResp buf = .ok msg) :
    buf.length = 92 ∧ buf[0]? = some 0x02#8 ∧ msg.wire = wireHeader 0x02#8 ++ buf.drop 4 := by
  obtain ⟨hlen, htype, rfl⟩ := packetParseHandshakeResp_eq_ok.mp h
  refine ⟨hlen, ?_, ?_⟩
  · rw [List.getElem?_eq_getElem (by omega)]
    exact congrArg some htype
  · simp only [PacketHandshakeResp.wire, le32Write_le32Read]
    rw [toList_slice_of_end 76 _ (by omega), toList_slice_append_drop 60, toList_slice_append_drop 44,
      toList_slice_append_drop 12, toList_slice_append_drop 8, toList_slice_append_drop 4]
    rfl

/-- So are those of a data packet, whose type octet is one of two, whatever its length. -/
theorem packetData_wire_eq {msg : PacketData (BitVec 8)} (h : packetParseData buf = .ok msg) :
    (32 ≤ buf.length ∧ buf.length ≤ 1472) ∧ (buf[0]? = some 0x03#8 ∨ buf[0]? = some 0x04#8) ∧
      msg.ciphertext.length = buf.length - 32 ∧ msg.wire = wireHeader msg.wireType ++ buf.drop 4 := by
  obtain ⟨hmin, hmax, htype, rfl⟩ := packetParseData_eq_ok.mp h
  refine ⟨⟨hmin, hmax⟩, ?_, List.Vector.toList_length _, ?_⟩
  · rw [List.getElem?_eq_getElem (by omega)]
    exact htype.imp (congrArg some) (congrArg some)
  · simp only [PacketData.wire, le32Write_le32Read, le64Write_le64Read]
    rw [toList_slice_of_end (16 + (buf.length - 32)) _ (by omega), toList_slice_append_drop 16,
      toList_slice_append_drop 8, toList_slice_append_drop 4]

/-- Octets behind a fresh header of four. -/
theorem getElem?_wireHeader_append {type : BitVec 8} {k : ℕ} (hk : 4 ≤ k) :
    (wireHeader type ++ buf.drop 4)[k]? = buf[k]? := by
  rw [List.getElem?_append_right (by rw [length_wireHeader]; exact hk), length_wireHeader, List.getElem?_drop,
    Nat.add_sub_cancel' hk]

theorem length_wireHeader_append {type : BitVec 8} (hlen : 4 ≤ buf.length) :
    (wireHeader type ++ buf.drop 4).length = buf.length := by
  rw [List.length_append, length_wireHeader, List.length_drop]
  omega

/-- A header with the type octet of the buffer leaves only the reserved octets to differ. -/
theorem getElem?_wireHeader_append_of_type {type : BitVec 8} (htype : buf[0]? = some type) {k : ℕ}
    (hk : k ≠ 1 ∧ k ≠ 2 ∧ k ≠ 3) : (wireHeader type ++ buf.drop 4)[k]? = buf[k]? := by
  by_cases hzero : k = 0
  · rw [hzero, htype]
    rfl
  · exact getElem?_wireHeader_append (by omega)

end

/-! ### Both ways -/

/-- A response is recognised by its type octet. -/
theorem packetPeekType_response (msg : PacketHandshakeResp (BitVec 8)) : packetPeekType msg.wire = .handshakeResp := by
  simp [packetPeekType, PacketHandshakeResp.wire, wireHeader]

/-- A data packet is a keepalive when it is empty. -/
theorem packetPeekType_wire (msg : PacketData (BitVec 8)) :
    packetPeekType msg.wire = if msg.ciphertext.length = 0 then .keepalive else .data := by
  by_cases hempty : msg.ciphertext.length = 0 <;>
    simp [packetPeekType, PacketData.wire, PacketData.wireType, wireHeader, hempty]

/-- **The wire format round trips.** Serialised into a buffer with room for it, each of the three datagrams is
dispatched to its parser and parsed back, a data packet if its ciphertext has at most 1440 octets. And
what a parser accepts is serialised again to the same octets, except for the reserved octets 1 to 3
and, in a data packet, the type octet. -/
theorem wire_codec :
    ((∀ (bufSize : ℕ) (msg : PacketHandshakeInit (BitVec 8)), 148 ≤ bufSize →
        ∃ b, packetSerializeHandshakeInit bufSize msg = .ok b ∧ packetPeekType b = .handshakeInit ∧
          packetParseHandshakeInit b = .ok msg) ∧
      (∀ (bufSize : ℕ) (msg : PacketHandshakeResp (BitVec 8)), 92 ≤ bufSize →
        ∃ b, packetSerializeHandshakeResp bufSize msg = .ok b ∧ packetPeekType b = .handshakeResp ∧
          packetParseHandshakeResp b = .ok msg) ∧
      (∀ (bufSize : ℕ) (msg : PacketData (BitVec 8)), msg.ciphertext.length ≤ 1440 →
        msg.ciphertext.length + 32 ≤ bufSize →
        ∃ b, packetSerializeData bufSize msg.receiverIndex msg.counter msg.ciphertext msg.authTag = .ok b ∧
          packetPeekType b = (if msg.ciphertext.length = 0 then .keepalive else .data) ∧
          packetParseData b = .ok msg)) ∧
    ((∀ (bufSize : ℕ) (buf : List (BitVec 8)) msg, packetParseHandshakeInit buf = .ok msg → 148 ≤ bufSize →
        ∃ b, packetSerializeHandshakeInit bufSize msg = .ok b ∧ b.length = buf.length ∧
          ∀ k, k ≠ 1 ∧ k ≠ 2 ∧ k ≠ 3 → b[k]? = buf[k]?) ∧
      (∀ (bufSize : ℕ) (buf : List (BitVec 8)) msg, packetParseHandshakeResp buf = .ok msg → 92 ≤ bufSize →
        ∃ b, packetSerializeHandshakeResp bufSize msg = .ok b ∧ b.length = buf.length ∧
          ∀ k, k ≠ 1 ∧ k ≠ 2 ∧ k ≠ 3 → b[k]? = buf[k]?) ∧
      (∀ (bufSize : ℕ) (buf : List (BitVec 8)) msg, packetParseData buf = .ok msg → buf.length ≤ bufSize →
        ∃ b, packetSerializeData bufSize msg.receiverIndex msg.counter msg.ciphertext msg.authTag = .ok b ∧
          b.length = buf.length ∧ ∀ k, k ≠ 0 ∧ k ≠ 1 ∧ k ≠ 2 ∧ k ≠ 3 → b[k]? = buf[k]?)) := by
  refine ⟨⟨?_, ?_, ?_⟩, ?_, ?_, ?_⟩
  · intro bufSize msg hsize
    exact ⟨msg.wire, packetSerializeHandshakeInit_ok hsize msg, packetPeekType_initiation msg,
      packetParseHandshakeInit_wire msg⟩
  · intro bufSize msg hsize
    exact ⟨msg.wire, packetSerializeHandshakeResp_ok hsize msg, packetPeekType_response msg,
      packetParseHandshakeResp_wire msg⟩
  · intro bufSize msg hmax hsize
    exact ⟨msg.wire, packetSerializeData_ok (by omega) _ _ _, packetPeekType_wire msg, packetParseData_wire hmax⟩
  · intro bufSize buf msg hparse hsize
    obtain ⟨hlen, htype, hwire⟩ := packetHandshakeInit_wire_eq hparse
    refine ⟨_, packetSerializeHandshakeInit_ok hsize msg, ?_⟩
    rw [hwire]
    exact ⟨length_wireHeader_append (by omega), fun k hk => getElem?_wireHeader_append_of_type htype hk⟩
  · intro bufSize buf msg hparse hsize
    obtain ⟨hlen, htype, hwire⟩ := packetHandshakeResp_wire_eq hparse
    refine ⟨_, packetSerializeHandshakeResp_ok hsize msg, ?_⟩
    rw [hwire]
    exact ⟨length_wireHeader_append (by omega), fun k hk => getElem?_wireHeader_append_of_type htype hk⟩
  · intro bufSize buf msg hparse hsize
    obtain ⟨⟨hmin, -⟩, -, hcipher, hwire⟩ := packetData_wire_eq hparse
    refine ⟨_, packetSerializeData_ok (by omega) _ _ _, ?_⟩
    rw [hwire]
    exact ⟨length_wireHeader_append (by omega), fun k hk => getElem?_wireHeader_append (by omega)⟩

end VpnTunnel
