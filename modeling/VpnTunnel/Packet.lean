import VpnTunnel.Config
import VpnTunnel.Lib.Octets

/-!
# The wire format

This module models `src/packet.h` and `src/packet.c`: the three datagrams, their parsers and their
serialisers.

"Every field has a fixed position and a fixed size. There are no variable-length headers, no dynamic
allocation, and no pointer chasing." The layouts are those of the comment at the top of `packet.c`:

    initiation   type(1) reserved(3) sender(4) ephemeral(32) static(48) timestamp(28) mac1(16) mac2(16)
    response     type(1) reserved(3) sender(4) receiver(4) ephemeral(32) nothing(16) mac1(16) mac2(16)
    data         type(1) reserved(3) receiver(4) counter(8) ciphertext(N) tag(16)

## The model

A buffer is a list of octets. A parser reads each field with `slice`, so that every read is shown to
lie inside the buffer; a serialiser clears a buffer and overwrites it at the offsets of the source.
The data parser stores pointers into the caller's buffer; here the parsed packet holds the octets they
point at, and the empty list for the `NULL` of an empty ciphertext.
A parser returns the packet; with the structure of the caller as a further argument, and returned as it
is after the call, it is written down a second time (`…Into`).

## What is proved

* `packetSerializeHandshakeInit_ok`, `packetSerializeHandshakeResp_ok`, `packetSerializeData_ok` — a
  serialiser lays its fields out one after the other.
* `packetParseHandshakeInit_wire`, `packetParseHandshakeResp_wire`, `packetParseData_wire` — what was
  laid out is parsed back.
-/

namespace VpnTunnel

open Octets

variable {β : Type} [Octet β]

/-! ### Integers on the wire -/

/-- Read a 32-bit integer, `le32_read`. -/
def le32Read (p : Bytes β 4) : BitVec 32 := leReadFrom 32 0 p.toList

/-- Write a 32-bit integer, `le32_write`. -/
def le32Write (v : BitVec 32) : Bytes β 4 := ⟨leWriteFrom v 0 4, length_leWriteFrom v 0 4⟩

/-- Read a 64-bit integer, `le64_read`. -/
def le64Read (p : Bytes β 8) : BitVec 64 := leReadFrom 64 0 p.toList

/-- Write a 64-bit integer, `le64_write`. -/
def le64Write (v : BitVec 64) : Bytes β 8 := ⟨leWriteFrom v 0 8, length_leWriteFrom v 0 8⟩

@[simp] theorem le32Read_le32Write (v : BitVec 32) : le32Read (le32Write v : Bytes β 4) = v :=
  leReadFrom_leWriteFrom v (by decide)

@[simp] theorem le64Read_le64Write (v : BitVec 64) : le64Read (le64Write v : Bytes β 8) = v :=
  leReadFrom_leWriteFrom v (by decide)

/-! ### The datagrams -/

/-- The type of a datagram, `packet_type_t`. -/
inductive PacketType where
  /-- Anything else, `0x00`. -/
  | invalid
  /-- A handshake initiation, `0x01`. -/
  | handshakeInit
  /-- A handshake response, `0x02`. -/
  | handshakeResp
  /-- Transport data, `0x03`. -/
  | data
  /-- A keepalive, `0x04`. -/
  | keepalive
  deriving DecidableEq, Repr

/-- A handshake initiation, `packet_handshake_init_t`. -/
@[ext]
structure PacketHandshakeInit (β : Type) where
  /-- The initiator's session index. -/
  senderIndex : BitVec 32
  /-- The initiator's ephemeral public key. -/
  unencryptedEphemeral : Bytes β 32
  /-- The initiator's static public key, sealed. -/
  encryptedStatic : Bytes β 48
  /-- The timestamp, sealed. -/
  encryptedTimestamp : Bytes β 28
  /-- The first MAC. -/
  mac1 : Bytes β 16
  /-- The second MAC, zeros in this implementation. -/
  mac2 : Bytes β 16
  deriving DecidableEq

/-- A handshake response, `packet_handshake_resp_t`. -/
@[ext]
structure PacketHandshakeResp (β : Type) where
  /-- The responder's session index. -/
  senderIndex : BitVec 32
  /-- The initiator's session index, echoed. -/
  receiverIndex : BitVec 32
  /-- The responder's ephemeral public key. -/
  unencryptedEphemeral : Bytes β 32
  /-- The tag of an empty message. -/
  encryptedNothing : Bytes β 16
  /-- The first MAC. -/
  mac1 : Bytes β 16
  /-- The second MAC, zeros in this implementation. -/
  mac2 : Bytes β 16
  deriving DecidableEq

/-- A data or keepalive packet as parsed, `packet_data_t`. -/
@[ext]
structure PacketData (β : Type) where
  /-- The receiver's session index. -/
  receiverIndex : BitVec 32
  /-- The packet's counter. -/
  counter : BitVec 64
  /-- The ciphertext, empty in a keepalive. -/
  ciphertext : List β
  /-- The authentication tag. -/
  authTag : Bytes β 16
  deriving DecidableEq

/-- Look at the type byte only, `packet_peek_type`. -/
def packetPeekType (buf : List β) : PacketType :=
  match buf with
  | [] => .invalid
  | b :: _ =>
    if toByte b = 0x01#8 then .handshakeInit
    else if toByte b = 0x02#8 then .handshakeResp
    else if toByte b = 0x03#8 then .data
    else if toByte b = 0x04#8 then .keepalive
    else .invalid

/-! ### Parsers -/

/-- Parse an initiation, `packet_parse_handshake_init`: exactly 148 octets, of type `0x01`. -/
def packetParseHandshakeInit (buf : List β) : Except Errno (PacketHandshakeInit β) :=
  if h : buf.length ≠ 148 then .error .ebadmsg
  else if toByte (buf.get ⟨0, by omega⟩) ≠ 0x01#8 then .error .ebadmsg
  else .ok
    { senderIndex := le32Read (slice buf 4 4 (by omega))
      unencryptedEphemeral := slice buf 8 32 (by omega)
      encryptedStatic := slice buf 40 48 (by omega)
      encryptedTimestamp := slice buf 88 28 (by omega)
      mac1 := slice buf 116 16 (by omega)
      mac2 := slice buf 132 16 (by omega) }

/-- Parse a response, `packet_parse_handshake_resp`: exactly 92 octets, of type `0x02`. -/
def packetParseHandshakeResp (buf : List β) : Except Errno (PacketHandshakeResp β) :=
  if h : buf.length ≠ 92 then .error .ebadmsg
  else if toByte (buf.get ⟨0, by omega⟩) ≠ 0x02#8 then .error .ebadmsg
  else .ok
    { senderIndex := le32Read (slice buf 4 4 (by omega))
      receiverIndex := le32Read (slice buf 8 4 (by omega))
      unencryptedEphemeral := slice buf 12 32 (by omega)
      encryptedNothing := slice buf 44 16 (by omega)
      mac1 := slice buf 60 16 (by omega)
      mac2 := slice buf 76 16 (by omega) }

/-- Parse a data packet, `packet_parse_data`: 32 to 1472 octets, of type `0x03` or `0x04`. The type
and the length of the ciphertext are not compared. -/
def packetParseData (buf : List β) : Except Errno (PacketData β) :=
  if h : buf.length < 32 then .error .ebadmsg
  else if buf.length > 1472 then .error .emsgsize
  else if toByte (buf.get ⟨0, by omega⟩) ≠ 0x03#8 ∧ toByte (buf.get ⟨0, by omega⟩) ≠ 0x04#8 then .error .ebadmsg
  else
    let ciphertextLen := buf.length - 32
    .ok
      { receiverIndex := le32Read (slice buf 4 4 (by omega))
        counter := le64Read (slice buf 8 8 (by omega))
        ciphertext := (slice buf 16 ciphertextLen (by omega)).toList
        authTag := slice buf (16 + ciphertextLen) 16 (by omega) }

/-! ### Parsers with their output -/

/-- `packet_parse_handshake_init`, with the structure it writes to. -/
def packetParseHandshakeInitInto (buf : List β) (out : PacketHandshakeInit β) :
    PacketHandshakeInit β × Except Errno Unit :=
  if h : buf.length ≠ 148 then (out, .error .ebadmsg)
  else if toByte (buf.get ⟨0, by omega⟩) ≠ 0x01#8 then (out, .error .ebadmsg)
  else
    let out := { out with senderIndex := le32Read (slice buf 4 4 (by omega)) }
    let out := { out with unencryptedEphemeral := slice buf 8 32 (by omega) }
    let out := { out with encryptedStatic := slice buf 40 48 (by omega) }
    let out := { out with encryptedTimestamp := slice buf 88 28 (by omega) }
    let out := { out with mac1 := slice buf 116 16 (by omega) }
    let out := { out with mac2 := slice buf 132 16 (by omega) }
    (out, .ok ())

/-- `packet_parse_handshake_resp`, with the structure it writes to. -/
def packetParseHandshakeRespInto (buf : List β) (out : PacketHandshakeResp β) :
    PacketHandshakeResp β × Except Errno Unit :=
  if h : buf.length ≠ 92 then (out, .error .ebadmsg)
  else if toByte (buf.get ⟨0, by omega⟩) ≠ 0x02#8 then (out, .error .ebadmsg)
  else
    let out := { out with senderIndex := le32Read (slice buf 4 4 (by omega)) }
    let out := { out with receiverIndex := le32Read (slice buf 8 4 (by omega)) }
    let out := { out with unencryptedEphemeral := slice buf 12 32 (by omega) }
    let out := { out with encryptedNothing := slice buf 44 16 (by omega) }
    let out := { out with mac1 := slice buf 60 16 (by omega) }
    let out := { out with mac2 := slice buf 76 16 (by omega) }
    (out, .ok ())

/-- `packet_parse_data`, with the structure it writes to. -/
def packetParseDataInto (buf : List β) (out : PacketData β) : PacketData β × Except Errno Unit :=
  if h : buf.length < 32 then (out, .error .ebadmsg)
  else if buf.length > 1472 then (out, .error .emsgsize)
  else if toByte (buf.get ⟨0, by omega⟩) ≠ 0x03#8 ∧ toByte (buf.get ⟨0, by omega⟩) ≠ 0x04#8 then (out, .error .ebadmsg)
  else
    let out := { out with receiverIndex := le32Read (slice buf 4 4 (by omega)) }
    let out := { out with counter := le64Read (slice buf 8 8 (by omega)) }
    let ciphertextLen := buf.length - 32
    let out := { out with ciphertext := (slice buf 16 ciphertextLen (by omega)).toList }
    let out := { out with authTag := slice buf (16 + ciphertextLen) 16 (by omega) }
    (out, .ok ())

/-! ### Serialisers -/

/-- Serialise an initiation, `packet_serialize_handshake_init`. -/
def packetSerializeHandshakeInit (bufSize : ℕ) (msg : PacketHandshakeInit β) : Except Errno (List β) :=
  if bufSize < 148 then .error .einval
  else
    let buf : List β := List.replicate 148 (ofByte 0#8)
    let buf := writeAt buf 0 [ofByte 0x01#8]
    let buf := writeAt buf 4 (le32Write msg.senderIndex).toList
    let buf := writeAt buf 8 msg.unencryptedEphemeral.toList
    let buf := writeAt buf 40 msg.encryptedStatic.toList
    let buf := writeAt buf 88 msg.encryptedTimestamp.toList
    let buf := writeAt buf 116 msg.mac1.toList
    let buf := writeAt buf 132 msg.mac2.toList
    .ok buf

/-- Serialise a response, `packet_serialize_handshake_resp`. -/
def packetSerializeHandshakeResp (bufSize : ℕ) (msg : PacketHandshakeResp β) : Except Errno (List β) :=
  if bufSize < 92 then .error .einval
  else
    let buf : List β := List.replicate 92 (ofByte 0#8)
    let buf := writeAt buf 0 [ofByte 0x02#8]
    let buf := writeAt buf 4 (le32Write msg.senderIndex).toList
    let buf := writeAt buf 8 (le32Write msg.receiverIndex).toList
    let buf := writeAt buf 12 msg.unencryptedEphemeral.toList
    let buf := writeAt buf 44 msg.encryptedNothing.toList
    let buf := writeAt buf 60 msg.mac1.toList
    let buf := writeAt buf 76 msg.mac2.toList
    .ok buf

/-- Serialise a data packet, `packet_serialize_data`: a keepalive when there is no ciphertext. Every
one of the `total_len` octets is written, so that what the buffer held does not matter. -/
def packetSerializeData (bufSize : ℕ) (receiverIndex : BitVec 32) (counter : BitVec 64)
    (ciphertext : List β) (authTag : Bytes β 16) : Except Errno (List β) :=
  let totalLen := 16 + ciphertext.length + 16
  if bufSize < totalLen then .error .enospc
  else
    let buf : List β := List.replicate totalLen (ofByte 0#8)
    let buf := writeAt buf 0 [if ciphertext.length = 0 then ofByte 0x04#8 else ofByte 0x03#8]
    let buf := writeAt buf 4 (le32Write receiverIndex).toList
    let buf := writeAt buf 8 (le64Write counter).toList
    let buf := writeAt buf 16 ciphertext
    let buf := writeAt buf (16 + ciphertext.length) authTag.toList
    .ok buf

/-! ### Layout -/

/-- The type byte and the three reserved octets. -/
def wireHeader (type : β) : List β := [type, ofByte 0#8, ofByte 0#8, ofByte 0#8]

@[simp] theorem length_wireHeader (type : β) : (wireHeader type).length = 4 := by
  simp [wireHeader]

@[simp] theorem getElem_wireHeader_zero (type : β) (h : 0 < (wireHeader type).length) : (wireHeader type)[0] = type :=
  rfl

/-- An initiation laid out on the wire. -/
def PacketHandshakeInit.wire (msg : PacketHandshakeInit β) : List β :=
  wireHeader (ofByte 0x01#8) ++ ((le32Write msg.senderIndex).toList ++ (msg.unencryptedEphemeral.toList ++
    (msg.encryptedStatic.toList ++ (msg.encryptedTimestamp.toList ++ (msg.mac1.toList ++ msg.mac2.toList)))))

/-- A response laid out on the wire. -/
def PacketHandshakeResp.wire (msg : PacketHandshakeResp β) : List β :=
  wireHeader (ofByte 0x02#8) ++ ((le32Write msg.senderIndex).toList ++ ((le32Write msg.receiverIndex).toList ++
    (msg.unencryptedEphemeral.toList ++ (msg.encryptedNothing.toList ++ (msg.mac1.toList ++ msg.mac2.toList)))))

/-- The type octet of a data packet. -/
def PacketData.wireType (msg : PacketData β) : β :=
  if msg.ciphertext.length = 0 then ofByte 0x04#8 else ofByte 0x03#8

/-- A data packet laid out on the wire. -/
def PacketData.wire (msg : PacketData β) : List β :=
  wireHeader msg.wireType ++
    ((le32Write msg.receiverIndex).toList ++ ((le64Write msg.counter).toList ++
      (msg.ciphertext ++ msg.authTag.toList)))

theorem packetSerializeHandshakeInit_ok {bufSize : ℕ} (h : 148 ≤ bufSize) (msg : PacketHandshakeInit β) :
    packetSerializeHandshakeInit bufSize msg = .ok msg.wire := by
  rw [packetSerializeHandshakeInit, if_neg (Nat.not_lt.mpr h), ← List.nil_append (List.replicate _ _)]
  dsimp only
  rw [writeAt_fill _ _ (by rfl), replicate_skip (g := 3) _ (by simp), writeAt_fill _ _ (by simp),
    writeAt_fill _ _ (by simp), writeAt_fill _ _ (by simp), writeAt_fill _ _ (by simp),
    writeAt_fill _ _ (by simp), writeAt_fill _ _ (by simp)]
  simp [PacketHandshakeInit.wire, wireHeader, List.replicate]

theorem packetSerializeHandshakeResp_ok {bufSize : ℕ} (h : 92 ≤ bufSize) (msg : PacketHandshakeResp β) :
    packetSerializeHandshakeResp bufSize msg = .ok msg.wire := by
  rw [packetSerializeHandshakeResp, if_neg (Nat.not_lt.mpr h), ← List.nil_append (List.replicate _ _)]
  dsimp only
  rw [writeAt_fill _ _ (by rfl), replicate_skip (g := 3) _ (by simp), writeAt_fill _ _ (by simp),
    writeAt_fill _ _ (by simp), writeAt_fill _ _ (by simp), writeAt_fill _ _ (by simp),
    writeAt_fill _ _ (by simp), writeAt_fill _ _ (by simp)]
  simp [PacketHandshakeResp.wire, wireHeader, List.replicate]

theorem packetSerializeData_ok {bufSize : ℕ} {ciphertext : List β} (h : 16 + ciphertext.length + 16 ≤ bufSize)
    (receiverIndex : BitVec 32) (counter : BitVec 64) (authTag : Bytes β 16) :
    packetSerializeData bufSize receiverIndex counter ciphertext authTag =
      .ok (PacketData.wire ⟨receiverIndex, counter, ciphertext, authTag⟩) := by
  rw [packetSerializeData, if_neg (Nat.not_lt.mpr h), ← List.nil_append (List.replicate _ _)]
  dsimp only
  rw [writeAt_fill _ _ (by rfl), replicate_skip (g := 3) _ (by simp), writeAt_fill _ _ (by simp),
    writeAt_fill _ _ (by simp), writeAt_fill _ _ (by simp), writeAt_fill _ _ (by simp; omega)]
  simp [PacketData.wire, PacketData.wireType, wireHeader, List.replicate]

/-- Every packet that fits the buffer is serialised. -/
theorem packetSerializeData_eq_ok {bufSize : ℕ} {ciphertext b : List β} {receiverIndex : BitVec 32}
    {counter : BitVec 64} {authTag : Bytes β 16} :
    packetSerializeData bufSize receiverIndex counter ciphertext authTag = .ok b ↔
      16 + ciphertext.length + 16 ≤ bufSize ∧ b = PacketData.wire ⟨receiverIndex, counter, ciphertext, authTag⟩ := by
  by_cases h : 16 + ciphertext.length + 16 ≤ bufSize
  · rw [packetSerializeData_ok h, Except.ok.injEq]
    exact ⟨fun heq => ⟨h, heq.symm⟩, fun heq => heq.2.symm⟩
  · rw [packetSerializeData, if_pos (Nat.lt_of_not_le h)]
    exact ⟨nofun, fun heq => absurd heq.1 h⟩

theorem PacketData.length_wire (msg : PacketData β) : msg.wire.length = msg.ciphertext.length + 32 := by
  simp [PacketData.wire]
  omega

/-! ### When a parser succeeds -/

section

variable {buf : List β}

theorem packetParseHandshakeInit_eq_ok {msg : PacketHandshakeInit β} :
    packetParseHandshakeInit buf = .ok msg ↔
      ∃ h : buf.length = 148, toByte (buf.get ⟨0, by omega⟩) = 0x01#8 ∧ msg =
        { senderIndex := le32Read (slice buf 4 4 (by omega))
          unencryptedEphemeral := slice buf 8 32 (by omega)
          encryptedStatic := slice buf 40 48 (by omega)
          encryptedTimestamp := slice buf 88 28 (by omega)
          mac1 := slice buf 116 16 (by omega)
          mac2 := slice buf 132 16 (by omega) } := by
  constructor
  · intro h
    unfold packetParseHandshakeInit at h
    split at h
    · cases h
    · next hlen =>
      split at h
      · cases h
      · next htype =>
        cases h
        exact ⟨not_not.mp hlen, not_not.mp htype, rfl⟩
  · rintro ⟨hlen, htype, rfl⟩
    rw [packetParseHandshakeInit, dif_neg (not_not.mpr hlen), if_neg (not_not.mpr htype)]

theorem packetParseHandshakeResp_eq_ok {msg : PacketHandshakeResp β} :
    packetParseHandshakeResp buf = .ok msg ↔
      ∃ h : buf.length = 92, toByte (buf.get ⟨0, by omega⟩) = 0x02#8 ∧ msg =
        { senderIndex := le32Read (slice buf 4 4 (by omega))
          receiverIndex := le32Read (slice buf 8 4 (by omega))
          unencryptedEphemeral := slice buf 12 32 (by omega)
          encryptedNothing := slice buf 44 16 (by omega)
          mac1 := slice buf 60 16 (by omega)
          mac2 := slice buf 76 16 (by omega) } := by
  constructor
  · intro h
    unfold packetParseHandshakeResp at h
    split at h
    · cases h
    · next hlen =>
      split at h
      · cases h
      · next htype =>
        cases h
        exact ⟨not_not.mp hlen, not_not.mp htype, rfl⟩
  · rintro ⟨hlen, htype, rfl⟩
    rw [packetParseHandshakeResp, dif_neg (not_not.mpr hlen), if_neg (not_not.mpr htype)]

theorem packetParseData_eq_ok {msg : PacketData β} :
    packetParseData buf = .ok msg ↔ ∃ h : 32 ≤ buf.length, buf.length ≤ 1472 ∧
      (toByte (buf.get ⟨0, by omega⟩) = 0x03#8 ∨ toByte (buf.get ⟨0, by omega⟩) = 0x04#8) ∧ msg =
        { receiverIndex := le32Read (slice buf 4 4 (by omega))
          counter := le64Read (slice buf 8 8 (by omega))
          ciphertext := (slice buf 16 (buf.length - 32) (by omega)).toList
          authTag := slice buf (16 + (buf.length - 32)) 16 (by omega) } := by
  constructor
  · intro h
    unfold packetParseData at h
    split at h
    · cases h
    · next hmin =>
      split at h
      · cases h
      · next hmax =>
        split at h
        · cases h
        · next htype =>
          cases h
          rw [not_and_or, not_not, not_not] at htype
          exact ⟨Nat.le_of_not_lt hmin, Nat.le_of_not_lt hmax, htype, rfl⟩
  · rintro ⟨hmin, hmax, htype, rfl⟩
    rw [packetParseData, dif_neg (Nat.not_lt.mpr hmin), if_neg (Nat.not_lt.mpr hmax), if_neg (by tauto)]

end

/-! ### Types -/

/-- An initiation is recognised by its type octet. -/
theorem packetPeekType_initiation (msg : PacketHandshakeInit β) : packetPeekType msg.wire = .handshakeInit := by
  simp [packetPeekType, PacketHandshakeInit.wire, wireHeader]

/-- So is a data packet. -/
theorem packetPeekType_data (msg : PacketData β) :
    packetPeekType msg.wire = .data ∨ packetPeekType msg.wire = .keepalive := by
  by_cases hempty : msg.ciphertext.length = 0 <;>
    simp [packetPeekType, PacketData.wire, PacketData.wireType, wireHeader, hempty]

/-- What parses as a data packet has the type of one. -/
theorem packetPeekType_of_packetParseData {buf : List β} {parsed : PacketData β}
    (h : packetParseData buf = .ok parsed) :
    packetPeekType buf = .data ∨ packetPeekType buf = .keepalive := by
  obtain ⟨hmin, -, htype, -⟩ := packetParseData_eq_ok.mp h
  cases buf with
  | nil => simp at hmin
  | cons b rest =>
    simp only [List.get_eq_getElem, List.getElem_cons_zero] at htype
    rcases htype with htype | htype <;> simp [packetPeekType, htype]

/-! ### What is laid out is parsed back -/

/-- An initiation laid out on the wire is parsed back. -/
theorem packetParseHandshakeInit_wire (msg : PacketHandshakeInit β) :
    packetParseHandshakeInit msg.wire = .ok msg := by
  simp [packetParseHandshakeInit, PacketHandshakeInit.wire, slice_append]

/-- A response laid out on the wire is parsed back. -/
theorem packetParseHandshakeResp_wire (msg : PacketHandshakeResp β) :
    packetParseHandshakeResp msg.wire = .ok msg := by
  simp [packetParseHandshakeResp, PacketHandshakeResp.wire, slice_append]

/-- A data packet laid out on the wire is parsed back, when its ciphertext fits. -/
theorem packetParseData_wire {msg : PacketData β} (h : msg.ciphertext.length ≤ 1440) :
    packetParseData msg.wire = .ok msg := by
  have hlen := PacketData.length_wire msg
  have htype : toByte (msg.wire.get ⟨0, by omega⟩) = 0x03#8 ∨ toByte (msg.wire.get ⟨0, by omega⟩) = 0x04#8 := by
    by_cases hempty : msg.ciphertext.length = 0 <;> simp [PacketData.wire, PacketData.wireType, hempty]
  rw [packetParseData, dif_neg (by omega), if_neg (by omega), if_neg (by tauto)]
  refine congrArg Except.ok (PacketData.ext ?_ ?_ ?_ ?_)
  · simp [PacketData.wire, slice_append]
  · simp [PacketData.wire, slice_append]
  · refine toList_slice (wireHeader msg.wireType ++ (le32Write msg.receiverIndex).toList ++
      (le64Write msg.counter).toList) msg.authTag.toList ?_ ?_ (by omega) (by omega)
    · simp [PacketData.wire]
    · simp
  · refine List.Vector.eq _ _ (toList_slice (wireHeader msg.wireType ++ (le32Write msg.receiverIndex).toList ++
      (le64Write msg.counter).toList ++ msg.ciphertext) [] ?_ ?_ msg.authTag.toList_length (by omega))
    · simp [PacketData.wire]
    · simp only [List.length_append, length_wireHeader, List.Vector.toList_length]
      omega

end VpnTunnel
