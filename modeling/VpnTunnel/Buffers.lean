import VpnTunnel.Daemon
import VpnTunnel.Lib.Memory

/-!
# The buffers of the event loop

This module models the event loop of `src/main.c` a second time, on the memory it works in. `main` has four
buffers of 2048 octets, "statically allocated stack buffers for zero-heap I/O": `net_buf`, `tun_buf`,
`plain_buf` and `cipher_buf`. None of them is ever cleared, a datagram is handled where it was received, and
`net_buf` holds what came in and what goes out.

## The model

A datagram or a packet is copied to the start of a buffer, over a part of what the last ones left there, and
is known from then on by its length. `packet_parse_data` copies nothing: it stores where in the buffer the
ciphertext and the tag begin (`PacketDataView`). Every read and every write of a buffer is checked
(`Memory.load`, `Memory.save`): a step outside a buffer has no result.

A refused tag is not without a trace. `crypto.c` says that the plaintext is then "left untouched"; libsodium
clears it, as many octets as the ciphertext has.

## What is proved

* `packetParseData_mem`, `packetSerializeData_mem` — the parser that points into the buffer and the serialiser
  that fills it do what the functions on whole packets do.
* `memStep_refines` — a step of the loop stays inside the buffers and does what `step` does.
* `memRun_refines` — so does every run, whatever the buffers hold at its start: nothing left in a buffer by an
  earlier packet is ever parsed, sent or written to the device.
-/

namespace VpnTunnel

open Octets Memory

variable {β : Type} {m : ℕ}

/-! ### The wire format in a buffer -/

/-- A data packet as `packet_parse_data` leaves it, `packet_data_t`: with pointers into the buffer. -/
@[ext]
structure PacketDataView where
  /-- The receiver's session index. -/
  receiverIndex : BitVec 32
  /-- The packet's counter. -/
  counter : BitVec 64
  /-- Where the ciphertext begins, or `NULL` when there is none. -/
  ciphertext : Option ℕ
  /-- How long it is. -/
  ciphertextLen : ℕ
  /-- Where the tag begins. -/
  authTag : ℕ
  deriving DecidableEq, Repr

/-- The pointers to the parts of a packet at the start of a buffer. -/
def PacketData.view (msg : PacketData β) : PacketDataView :=
  { receiverIndex := msg.receiverIndex
    counter := msg.counter
    ciphertext := if msg.ciphertext.length > 0 then some 16 else none
    ciphertextLen := msg.ciphertext.length
    authTag := 16 + msg.ciphertext.length }

variable [Octet β]

/-- `packet_peek_type`. -/
def packetPeekTypeMem (buf : Bytes β m) (len : ℕ) : Option PacketType :=
  if len < 1 then some .invalid
  else do
    let type ← load buf 0 1
    return packetPeekType type.toList

/-- `packet_parse_handshake_init`. -/
def packetParseHandshakeInitMem (buf : Bytes β m) (len : ℕ) : Option (Except Errno (PacketHandshakeInit β)) :=
  if len ≠ 148 then some (.error .ebadmsg)
  else do
    let type ← load buf 0 1
    if toByte type.head ≠ 0x01#8 then return .error .ebadmsg
    else
      let senderIndex ← load buf 4 4
      let unencryptedEphemeral ← load buf 8 32
      let encryptedStatic ← load buf 40 48
      let encryptedTimestamp ← load buf 88 28
      let mac1 ← load buf 116 16
      let mac2 ← load buf 132 16
      return .ok
        { senderIndex := le32Read senderIndex
          unencryptedEphemeral := unencryptedEphemeral
          encryptedStatic := encryptedStatic
          encryptedTimestamp := encryptedTimestamp
          mac1 := mac1
          mac2 := mac2 }

/-- `packet_parse_data`. -/
def packetParseDataMem (buf : Bytes β m) (len : ℕ) : Option (Except Errno PacketDataView) :=
  if len < 32 then some (.error .ebadmsg)
  else if len > 1472 then some (.error .emsgsize)
  else do
    let type ← load buf 0 1
    if toByte type.head ≠ 0x03#8 ∧ toByte type.head ≠ 0x04#8 then return .error .ebadmsg
    else
      let receiverIndex ← load buf 4 4
      let counter ← load buf 8 8
      let ciphertextLen := len - 32
      return .ok
        { receiverIndex := le32Read receiverIndex
          counter := le64Read counter
          ciphertext := if ciphertextLen > 0 then some 16 else none
          ciphertextLen := ciphertextLen
          authTag := 16 + ciphertextLen }

/-- `packet_serialize_data`: the buffer after the call, and the length of the packet. -/
def packetSerializeDataMem {k : ℕ} (buf : Bytes β m) (bufSize : ℕ) (receiverIndex : BitVec 32) (counter : BitVec 64)
    (ciphertext : Bytes β k) (ciphertextLen : ℕ) (authTag : Bytes β 16) : Option (Bytes β m × Except Errno ℕ) :=
  let totalLen := 16 + ciphertextLen + 16
  if bufSize < totalLen then some (buf, .error .enospc)
  else do
    let buf ← save buf 0 (List.replicate 16 (ofByte 0#8))
    let buf ← save buf 0 [if ciphertextLen = 0 then ofByte 0x04#8 else ofByte 0x03#8]
    let buf ← save buf 4 (le32Write receiverIndex).toList
    let buf ← save buf 8 (le64Write counter).toList
    let buf ← (if ciphertextLen > 0 then copy buf 16 ciphertext ciphertextLen else some buf)
    let buf ← save buf (16 + ciphertextLen) authTag.toList
    return (buf, .ok totalLen)

section

variable {buf : Bytes β m} {l : List β}

omit [Octet β] in
theorem head_slice_zero (h : 0 + 1 ≤ l.length) : (slice l 0 1 h).head = l.get ⟨0, by omega⟩ := by
  cases l with
  | nil => simp at h
  | cons b l => rfl

/-- The type of what a buffer holds is seen. -/
theorem packetPeekType_mem (h : Begins buf l) : packetPeekTypeMem buf l.length = some (packetPeekType l) := by
  cases l with
  | nil => rfl
  | cons b l =>
    rw [packetPeekTypeMem, if_neg (by simp), h.load (by simp)]
    rfl

/-- An initiation that a buffer holds is parsed. -/
theorem packetParseHandshakeInit_mem (h : Begins buf l) :
    packetParseHandshakeInitMem buf l.length = some (packetParseHandshakeInit l) := by
  unfold packetParseHandshakeInitMem packetParseHandshakeInit
  by_cases hlen : l.length ≠ 148
  · rw [if_pos hlen, dif_pos hlen]
  · rw [if_neg hlen, dif_neg hlen, h.load (by omega), h.load (by omega), h.load (by omega), h.load (by omega),
      h.load (by omega), h.load (by omega), h.load (by omega)]
    simp only [Option.bind_eq_bind, Option.bind_some, head_slice_zero]
    split <;> rfl

/-- A data packet that a buffer holds is parsed to pointers to its parts. -/
theorem packetParseData_mem (h : Begins buf l) :
    packetParseDataMem buf l.length = some ((packetParseData l).map PacketData.view) := by
  unfold packetParseDataMem packetParseData
  by_cases hmin : l.length < 32
  · rw [if_pos hmin, dif_pos hmin]
    rfl
  · rw [if_neg hmin, dif_neg hmin]
    by_cases hmax : l.length > 1472
    · rw [if_pos hmax, if_pos hmax]
      rfl
    · rw [if_neg hmax, if_neg hmax, h.load (by omega), h.load (by omega), h.load (by omega)]
      simp only [Option.bind_eq_bind, Option.bind_some, head_slice_zero]
      split
      · rfl
      · simp [Except.map, PacketData.view]

/-- The pointers to the parts of a packet lead to them. -/
theorem load_view (h : Begins buf l) {msg : PacketData β} (hparse : packetParseData l = .ok msg) :
    load buf (msg.view.ciphertext.getD 0) msg.view.ciphertextLen = some (ofList msg.ciphertext) ∧
      load buf msg.view.authTag 16 = some msg.authTag := by
  obtain ⟨hmin, -, -, hmsg⟩ := packetParseData_eq_ok.mp hparse
  have hcipher : msg.ciphertext = (slice l 16 (l.length - 32) (by omega)).toList := by rw [hmsg]
  have hlen : msg.ciphertext.length = l.length - 32 := by rw [hcipher, List.Vector.toList_length]
  refine ⟨?_, ?_⟩
  · by_cases hempty : msg.ciphertext.length > 0
    · simp only [PacketData.view, if_pos hempty, Option.getD_some]
      rw [h.load (by omega : 16 + msg.ciphertext.length ≤ l.length)]
      refine congrArg some (List.Vector.eq _ _ ?_)
      simp only [slice, List.Vector.toList_mk, toList_ofList, hlen]
      rw [hcipher, slice, List.Vector.toList_mk]
    · simp only [PacketData.view, if_neg hempty, Option.getD_none]
      rw [h.load (by omega : 0 + msg.ciphertext.length ≤ l.length)]
      refine congrArg some (List.Vector.eq _ _ ?_)
      have hnil : msg.ciphertext = [] := List.eq_nil_of_length_eq_zero (by omega)
      simp [slice, hnil]
  · have htag : load buf (16 + msg.ciphertext.length) 16 = some msg.authTag := by
      rw [hlen, h.load (by omega), hmsg]
    exact htag

end

/-- The header of a data packet. -/
def dataHeader (type : β) (receiverIndex : BitVec 32) (counter : BitVec 64) : List β :=
  wireHeader type ++ ((le32Write receiverIndex).toList ++ (le64Write counter).toList)

/-- The header is cleared and then filled in. -/
theorem writeAt_dataHeader (type : β) (receiverIndex : BitVec 32) (counter : BitVec 64) :
    writeAt (writeAt (writeAt (List.replicate 16 (ofByte 0#8)) 0 [type]) 4 (le32Write receiverIndex).toList) 8
      (le64Write counter).toList = dataHeader type receiverIndex counter := by
  rw [← List.nil_append (List.replicate _ _), writeAt_fill _ _ (by rfl), replicate_skip (g := 3) _ (by simp),
    writeAt_fill _ _ (by simp), writeAt_fill _ _ (by simp)]
  simp [dataHeader, wireHeader, List.replicate]

/-- A packet that fits is laid out at the start of the buffer, whatever the buffer held. -/
theorem packetSerializeData_mem {k : ℕ} {cipher : Bytes β k} {ciphertext : List β} (h : Begins cipher ciphertext)
    (buf : Bytes β m) (receiverIndex : BitVec 32) (counter : BitVec 64) (authTag : Bytes β 16) :
    Yields (packetSerializeDataMem buf m receiverIndex counter cipher ciphertext.length authTag) fun out =>
      match packetSerializeData m receiverIndex counter ciphertext authTag with
      | .ok pkt => out.2 = .ok pkt.length ∧ Begins out.1 pkt
      | .error e => out = (buf, .error e) := by
  unfold packetSerializeDataMem
  dsimp only
  by_cases hfit : 16 + ciphertext.length + 16 ≤ m
  · rw [if_neg (Nat.not_lt.mpr hfit), packetSerializeData_ok hfit]
    generalize htype : (if ciphertext.length = 0 then ofByte 0x04#8 else ofByte 0x03#8 : β) = type
    refine Yields.bind (save_zero buf (by simp; omega)) fun b hb => ?_
    refine Yields.bind (hb.save (by simp) (by simp; omega)) fun b hb => ?_
    refine Yields.bind (hb.save (by simp) (by simp; omega)) fun b hb => ?_
    refine Yields.bind (hb.save (by simp) (by simp; omega)) fun b hb => ?_
    rw [writeAt_dataHeader] at hb
    -- the header is complete; the ciphertext and the tag follow it
    have hheader : (dataHeader type receiverIndex counter).length = 16 := by simp [dataHeader]
    refine Yields.bind (P := (Begins · (dataHeader type receiverIndex counter ++ ciphertext))) ?_ fun b hb => ?_
    · split
      · exact hb.copy_behind hheader h (by omega)
      · next hempty =>
        have hnil : ciphertext = [] := List.eq_nil_of_length_eq_zero (by omega)
        rw [hnil, List.append_nil]
        exact Yields.some hb
    · have hend : (dataHeader type receiverIndex counter ++ ciphertext).length = 16 + ciphertext.length := by
        rw [List.length_append, hheader]
      refine Yields.bind (hb.save_behind hend (by rw [authTag.toList_length]; omega)) fun b hb => ?_
      refine Yields.some ⟨?_, ?_⟩
      · rw [PacketData.length_wire, Nat.add_assoc, Nat.add_comm, Nat.add_assoc]
      · rw [PacketData.wire, PacketData.wireType, htype]
        simpa only [dataHeader, List.append_assoc] using hb
  · rw [if_pos (Nat.lt_of_not_le hfit), packetSerializeData, if_pos (Nat.lt_of_not_le hfit)]
    exact Yields.some rfl

/-! ### The functions that use a buffer -/

/-- Receive into a buffer, `recvfrom` and `read`: what does not fit is cut off. -/
def readInto (buf : Bytes β m) (octets : List β) : Option (Bytes β m × ℕ) := do
  let buf ← save buf 0 (octets.take m)
  return (buf, (octets.take m).length)

/-- `tun_write`. -/
def tunWriteMem (tun : TunDevice) (buf : Bytes β m) (bufLen : ℕ) : Option (Except Errno (List β)) :=
  if !tun.fdOpen || bufLen == 0 then some (.error .einval)
  else if bufLen > tun.mtu then some (.error .emsgsize)
  else do
    let packet ← load buf 0 bufLen
    return .ok packet.toList

/-- The end of the inbound path, on the plaintext in `plain_buf`. -/
def deliverMem (tun : TunDevice) (i : ℕ) (peer : Peer β) (recvKey : Bytes β 32) (counter : BitVec 64)
    (plainBuf : Bytes β m) (ciphertextLen : ℕ) : Option (List (Effect β)) :=
  if 20 ≤ ciphertextLen ∧ tun.fdOpen then do
    let srcIp ← load plainBuf 12 4
    if peerAllowsSourceIp peer (ipAt srcIp.toList 0) then
      match ← tunWriteMem tun plainBuf ciphertextLen with
      | .ok packet => return [.write i recvKey counter packet]
      | .error _ => return []
    else return []
  else return []

variable (S : Sodium β)

/-- `handshake_consume_initiation`, when the datagram has been parsed: nothing is read from it any more. -/
def consumeParsedInitiation [DecidableEq β] (myPrivkey myPubkey : Bytes β 32) (peerTable : PeerTable β)
    (parsed : PacketHandshakeInit β) : Except Errno (ConsumedInitiation peerTable) := do
  let init := initChainingAndHash S
  let hash := mixHash S init.2 myPubkey.toList
  let hash := mixHash S hash parsed.unencryptedEphemeral.toList
  let chainingKey := vpnKdf1 S init.1 parsed.unencryptedEphemeral.toList
  let dh1 ← vpnCryptoDh S parsed.unencryptedEphemeral myPrivkey
  let keys := vpnKdf2 S chainingKey dh1.toList
  let theirStatic ← openField S parsed.encryptedStatic hash keys.2 encryptedStatic_length
  match peerFindByPubkey peerTable theirStatic with
  | none => .error .eacces
  | some peer =>
    let hash := mixHash S hash parsed.encryptedStatic.toList
    let dh2 ← vpnCryptoDh S theirStatic myPrivkey
    let keys := vpnKdf2 S keys.1 dh2.toList
    let timestamp ← openField S parsed.encryptedTimestamp hash keys.2 encryptedTimestamp_length
    let last := (peerTable.peers.get peer).lastHandshakeTime
    if last ≠ 0 ∧ (timestampSec timestamp).sle last then .error .ebadmsg
    else
      let hash := mixHash S hash parsed.encryptedTimestamp.toList
      return { peer := peer, parsed := parsed, chainingKey := keys.1, hash := hash, timestamp := timestamp }

/-- `handshake_consume_initiation`. -/
def handshakeConsumeInitiationMem [DecidableEq β] (packet : Bytes β m) (packetLen : ℕ) (myPrivkey myPubkey : Bytes β 32)
    (peerTable : PeerTable β) : Option (Except Errno (ConsumedInitiation peerTable)) := do
  let parsed ← packetParseHandshakeInitMem packet packetLen
  return parsed >>= consumeParsedInitiation S myPrivkey myPubkey peerTable

/-! ### The loop -/

/-- The buffers of `main`. -/
structure Buffers (β : Type) where
  /-- A datagram that came in, or one that goes out, `net_buf`. -/
  net : Bytes β 2048
  /-- A packet from the TUN device, `tun_buf`. -/
  tun : Bytes β 2048
  /-- A packet decrypted, `plain_buf`. -/
  plain : Bytes β 2048
  /-- A packet encrypted, `cipher_buf`. -/
  cipher : Bytes β 2048

/-- A handshake initiation of `n` octets is in `net_buf`. -/
def inboundInitiationMem [DecidableEq β] (d : Daemon β) (r : Recv β) (netBuf : Bytes β 2048) (n : ℕ) :
    Option (Daemon β × List (Effect β)) := do
  match ← handshakeConsumeInitiationMem S netBuf n d.staticPriv d.staticPub d.table with
  | .error _ => return (d, [])
  | .ok init =>
    let datagram ← load netBuf 0 n
    let myLocalIdx := d.table.nextLocalIndex
    let table := { d.table with nextLocalIndex := d.table.nextLocalIndex + 1 }
    let peer := table.peers.get init.peer
    match handshakeCreateResponse S 92 init.parsed.unencryptedEphemeral peer.publicKey myLocalIdx
        init.parsed.senderIndex init.chainingKey init.hash r.ephemeral with
    | .error _ => return ({ d with table := table }, [.accept init.peer init.timestamp datagram.toList])
    | .ok resp =>
      let peer := peerInitSession peer myLocalIdx init.parsed.senderIndex resp.sendKey resp.recvKey r.now r.now'
      let session := peer.currentSession
      let peer := (peerUpdateEndpoint peer r.src).1
      return ({ d with table := table.update init.peer peer },
        [.accept init.peer init.timestamp datagram.toList, .install init.peer session, .send r.src resp.packet])

/-- Data or a keepalive of `n` octets is in `net_buf`. -/
def inboundDataMem (d : Daemon β) (r : Recv β) (b : Buffers β) (n : ℕ) :
    Option ((Daemon β × Buffers β) × List (Effect β)) := do
  match ← packetParseDataMem b.net n with
  | .error _ => return ((d, b), [])
  | .ok parsed =>
    match peerFindByIndex d.table parsed.receiverIndex with
    | none => return ((d, b), [])
    | some (i, slot) =>
      let peer := d.table.peers.get i
      let session := peer.session slot
      if session.state = .established ∧ replayCheck session.replayFilter parsed.counter then
        -- of a `NULL` ciphertext no octet is read
        let ciphertext ← load b.net (parsed.ciphertext.getD 0) parsed.ciphertextLen
        let authTag ← load b.net parsed.authTag 16
        match vpnCryptoAeadDecrypt S ciphertext authTag [] parsed.counter session.recvKey with
        | .error _ =>
          -- libsodium clears what it would have decrypted
          let plain ← save b.plain 0 (List.replicate parsed.ciphertextLen (ofByte 0#8))
          return ((d, { b with plain := plain }), [])
        | .ok plaintext =>
          let plain ← save b.plain 0 plaintext.toList
          let peer := peer.setSession slot
            { session with replayFilter := replayUpdate session.replayFilter parsed.counter }
          let peer := (peerUpdateEndpoint peer r.src).1
          let effects ← deliverMem d.tun i peer session.recvKey parsed.counter plain parsed.ciphertextLen
          return (({ d with table := d.table.update i peer }, { b with plain := plain }), effects)
      else return ((d, b), [])

/-- The UDP socket is readable. -/
def udpStepMem [DecidableEq β] (d : Daemon β) (b : Buffers β) (r : Recv β) :
    Option ((Daemon β × Buffers β) × List (Effect β)) := do
  let (net, n) ← readInto b.net r.datagram
  let b := { b with net := net }
  match ← packetPeekTypeMem b.net n with
  | .handshakeInit =>
    let (d, effects) ← inboundInitiationMem S d r b.net n
    return ((d, b), effects)
  | .data | .keepalive => inboundDataMem S d r b n
  | .handshakeResp | .invalid => return ((d, b), [])

/-- The TUN device is readable. It is only polled when it is open. -/
def tunStepMem (d : Daemon β) (b : Buffers β) (packet : List β) :
    Option ((Daemon β × Buffers β) × List (Effect β)) :=
  if d.tun.fdOpen then do
    let (tun, n) ← readInto b.tun packet
    let b := { b with tun := tun }
    if 20 ≤ n then
      let destIp ← load b.tun 16 4
      match peerFindByDestIp d.table (ipAt destIp.toList 0) with
      | none => return ((d, b), [])
      | some i =>
        let peer := d.table.peers.get i
        let session := peer.currentSession
        if session.state = .established then
          let counter := session.sendingCounter
          let peer' := { peer with currentSession := { session with sendingCounter := counter + 1 } }
          let d' := { d with table := d.table.update i peer' }
          let plaintext ← load b.tun 0 n
          let sealed := vpnCryptoAeadEncrypt S plaintext [] counter session.sendKey
          let encrypted := Effect.encrypt session.sendKey (vpnCryptoFormatNonce counter) plaintext.toList
          let cipher ← save b.cipher 0 sealed.1.toList
          let (net, pktLen) ← packetSerializeDataMem b.net 2048 session.peerIndex counter cipher n sealed.2
          let b := { b with cipher := cipher, net := net }
          match pktLen with
          | .ok len =>
            let pkt ← load b.net 0 len
            return ((d', b), [encrypted, .send peer.endpoint pkt.toList])
          | .error _ => return ((d', b), [encrypted])
        else return ((d, b), [])
    else return ((d, b), [])
  else return ((d, b), [])

/-- One step of the loop on its buffers. -/
def memStep [DecidableEq β] (d : Daemon β) (b : Buffers β) : Event β → Option ((Daemon β × Buffers β) × List (Effect β))
  | .udp r => udpStepMem S d b r
  | .tun packet => tunStepMem S d b packet

/-- A run of the loop on its buffers. -/
def memRun [DecidableEq β] (d : Daemon β) (b : Buffers β) :
    List (Event β) → Option ((Daemon β × Buffers β) × List (Effect β))
  | [] => some ((d, b), [])
  | ev :: events => do
    let (state, effects) ← memStep S d b ev
    let (state', effects') ← memRun state.1 state.2 events
    return (state', effects ++ effects')

/-! ### The loop stays inside its buffers -/

section

variable {S} {buf : Bytes β m} {l : List β}

omit [Octet β] in
/-- What is received is at the start of the buffer. -/
theorem readInto_yields (buf : Bytes β m) (octets : List β) :
    Yields (readInto buf octets) fun out => Begins out.1 (octets.take m) ∧ out.2 = (octets.take m).length := by
  refine Yields.bind (save_zero buf (List.length_take_le m octets)) fun b hb => ?_
  exact Yields.some ⟨hb, rfl⟩

/-- An address in the packet that a buffer holds. -/
theorem load_ip (h : Begins buf l) {off : ℕ} (hin : off + 4 ≤ l.length) :
    Yields (load buf off 4) fun ip => ipAt ip.toList 0 = ipAt l off := by
  refine ⟨_, h.load hin, ?_⟩
  have hlen : 4 ≤ (l.drop off).length := by rw [List.length_drop]; omega
  simp only [slice, List.Vector.toList_mk, ipAt, List.drop_zero]
  generalize l.drop off = rest at hlen
  rcases rest with _ | ⟨a, _ | ⟨b, _ | ⟨c, _ | ⟨d, rest⟩⟩⟩⟩
  case cons.cons.cons.cons => rfl
  all_goals
    simp only [List.length_cons, List.length_nil] at hlen
    omega

omit [Octet β] in
theorem tunWrite_mem (h : Begins buf l) (tun : TunDevice) : tunWriteMem tun buf l.length = some (tunWrite tun l) := by
  unfold tunWriteMem tunWrite
  split
  · rfl
  · split
    · rfl
    · rw [h.load_all]
      simp

theorem deliver_mem (h : Begins buf l) (tun : TunDevice) (i : ℕ) (peer : Peer β) (recvKey : Bytes β 32)
    (counter : BitVec 64) :
    deliverMem tun i peer recvKey counter buf l.length = some (deliver tun i peer recvKey counter l) := by
  unfold deliverMem deliver
  split
  · next hlen =>
    obtain ⟨ip, hload, hip⟩ := load_ip h (by omega : 12 + 4 ≤ l.length)
    rw [hload, tunWrite_mem h]
    simp only [Option.bind_eq_bind, Option.bind_some, hip]
    split
    · cases tunWrite tun l <;> rfl
    · rfl
  · rfl

variable [DecidableEq β]

theorem handshakeConsumeInitiation_mem (h : Begins buf l) (myPrivkey myPubkey : Bytes β 32) (t : PeerTable β) :
    handshakeConsumeInitiationMem S buf l.length myPrivkey myPubkey t =
      some (handshakeConsumeInitiation S l myPrivkey myPubkey t) := by
  rw [handshakeConsumeInitiationMem, packetParseHandshakeInit_mem h]
  rfl

/-- An initiation in the buffer is handled like the datagram it came in. -/
theorem inboundInitiation_mem {buf : Bytes β 2048} (h : Begins buf l) (d : Daemon β) (r : Recv β) :
    inboundInitiationMem S d r buf l.length = some (inboundInitiation S d r l) := by
  unfold inboundInitiationMem inboundInitiation
  rw [handshakeConsumeInitiation_mem h, h.load_all]
  simp only [Option.bind_eq_bind, Option.bind_some, toList_ofList]
  cases handshakeConsumeInitiation S l d.staticPriv d.staticPub d.table with
  | error e => rfl
  | ok init =>
    dsimp only
    cases handshakeCreateResponse S 92 init.parsed.unencryptedEphemeral (d.table.peers.get init.peer).publicKey
      d.table.nextLocalIndex init.parsed.senderIndex init.chainingKey init.hash r.ephemeral <;> rfl

omit [DecidableEq β] in
/-- A data packet in the buffer is handled like the datagram it came in. -/
theorem inboundData_mem {b : Buffers β} (h : Begins b.net l) (d : Daemon β) (r : Recv β) :
    Yields (inboundDataMem S d r b l.length) fun out =>
      out.1.1 = (inboundData S d r l).1 ∧ out.2 = (inboundData S d r l).2 := by
  unfold inboundDataMem inboundData
  refine Yields.bind_eq (packetParseData_mem h) ?_
  cases hparse : packetParseData l with
  | error e => exact Yields.some ⟨rfl, rfl⟩
  | ok msg =>
    have hlen : msg.ciphertext.length ≤ 2048 := by
      obtain ⟨hmin, hmax, -, rfl⟩ := packetParseData_eq_ok.mp hparse
      rw [List.Vector.toList_length]
      omega
    obtain ⟨hcipher, htag⟩ := load_view h hparse
    dsimp only [Except.map, PacketData.view] at hcipher htag ⊢
    cases hfind : peerFindByIndex d.table msg.receiverIndex with
    | none => exact Yields.some ⟨rfl, rfl⟩
    | some found =>
      obtain ⟨i, slot⟩ := found
      dsimp only
      split
      · refine Yields.bind_eq hcipher (Yields.bind_eq htag ?_)
        cases vpnCryptoAeadDecrypt S (ofList msg.ciphertext) msg.authTag [] msg.counter
            ((d.table.peers.get i).session slot).recvKey with
        | error e =>
          refine Yields.bind (save_zero b.plain (by rwa [List.length_replicate])) fun plain hplain => ?_
          exact Yields.some ⟨rfl, rfl⟩
        | ok plaintext =>
          refine Yields.bind (save_zero b.plain (by rwa [plaintext.toList_length])) fun plain hplain => ?_
          have hdeliver := deliver_mem hplain d.tun i ((d.table.peers.get i).received slot msg.counter r.src)
            ((d.table.peers.get i).session slot).recvKey msg.counter
          rw [plaintext.toList_length] at hdeliver
          exact Yields.bind_eq hdeliver (Yields.some ⟨rfl, rfl⟩)
      · exact Yields.some ⟨rfl, rfl⟩

/-- A datagram is handled like its first 2048 octets. -/
theorem udpStep_mem (d : Daemon β) (b : Buffers β) (r : Recv β) :
    Yields (udpStepMem S d b r) fun out => out.1.1 = (udpStep S d r).1 ∧ out.2 = (udpStep S d r).2 := by
  unfold udpStepMem udpStep
  refine Yields.bind (readInto_yields b.net r.datagram) fun ⟨net, n⟩ ⟨hnet, hn⟩ => ?_
  dsimp only at hnet hn ⊢
  subst hn
  refine Yields.bind_eq (packetPeekType_mem hnet) ?_
  cases packetPeekType (r.datagram.take 2048) with
  | handshakeInit => exact Yields.bind_eq (inboundInitiation_mem hnet d r) (Yields.some ⟨rfl, rfl⟩)
  | data => exact inboundData_mem hnet d r
  | keepalive => exact inboundData_mem hnet d r
  | handshakeResp => exact Yields.some ⟨rfl, rfl⟩
  | invalid => exact Yields.some ⟨rfl, rfl⟩

omit [DecidableEq β] in
/-- A packet from the device is handled like its first 2048 octets. -/
theorem tunStep_mem (d : Daemon β) (b : Buffers β) (packet : List β) :
    Yields (tunStepMem S d b packet) fun out => out.1.1 = (tunStep S d packet).1 ∧ out.2 = (tunStep S d packet).2 := by
  by_cases hopen : d.tun.fdOpen = true
  · unfold tunStepMem tunStep
    rw [if_pos hopen]
    refine Yields.bind (readInto_yields b.tun packet) fun read hread => ?_
    obtain ⟨tun, n⟩ := read
    obtain ⟨htun, hn⟩ := hread
    dsimp only at htun hn ⊢
    subst hn
    by_cases hlen : 20 ≤ (packet.take 2048).length
    · rw [if_pos hlen, if_pos ⟨hopen, hlen⟩]
      refine Yields.bind (load_ip htun (by omega : 16 + 4 ≤ (packet.take 2048).length)) fun ip hip => ?_
      rw [hip]
      cases peerFindByDestIp d.table (ipAt (packet.take 2048) 16) with
      | none => exact Yields.some ⟨rfl, rfl⟩
      | some i =>
        dsimp only
        split
        · refine Yields.bind_eq htun.load_all ?_
          rw [toList_ofList]
          generalize hsealed : vpnCryptoAeadEncrypt S (ofList (packet.take 2048)) []
            (d.table.peers.get i).currentSession.sendingCounter (d.table.peers.get i).currentSession.sendKey = sealed
          have hfit : sealed.1.toList.length ≤ 2048 := by
            rw [sealed.1.toList_length]
            exact List.length_take_le 2048 packet
          refine Yields.bind (save_zero b.cipher hfit) fun cipher hcipher => ?_
          have hser := packetSerializeData_mem hcipher b.net (d.table.peers.get i).currentSession.peerIndex
            (d.table.peers.get i).currentSession.sendingCounter sealed.2
          rw [sealed.1.toList_length] at hser
          refine Yields.bind hser fun out hout => ?_
          obtain ⟨net, pktLen⟩ := out
          cases hpkt : packetSerializeData 2048 (d.table.peers.get i).currentSession.peerIndex
              (d.table.peers.get i).currentSession.sendingCounter sealed.1.toList sealed.2 with
          | ok pkt =>
            rw [hpkt] at hout
            obtain ⟨hpktLen, hnet⟩ := hout
            dsimp only at hpktLen hnet
            subst hpktLen
            refine Yields.bind_eq hnet.load_all (Yields.some ⟨rfl, ?_⟩)
            rw [toList_ofList]
          | error e =>
            rw [hpkt] at hout
            cases hout
            exact Yields.some ⟨rfl, rfl⟩
        · exact Yields.some ⟨rfl, rfl⟩
    · rw [if_neg hlen, if_neg fun h => hlen h.2]
      exact Yields.some ⟨rfl, rfl⟩
  · unfold tunStepMem tunStep
    rw [if_neg hopen, if_neg fun h => hopen h.1]
    exact Yields.some ⟨rfl, rfl⟩

variable (S)

/-- **A step of the loop stays inside its buffers**, whatever they hold, and does what a step on fresh ones
does. -/
theorem memStep_refines (d : Daemon β) (b : Buffers β) (ev : Event β) :
    Yields (memStep S d b ev) fun out => out.1.1 = (step S d ev).1 ∧ out.2 = (step S d ev).2 := by
  cases ev with
  | udp r => exact udpStep_mem d b r
  | tun packet => exact tunStep_mem d b packet

/-- **So does every run of the loop**: no octet that an earlier packet left in a buffer is parsed, sent or
written to the device. -/
theorem memRun_refines (d : Daemon β) (b : Buffers β) (events : List (Event β)) :
    ∃ b', memRun S d b events = some (((runLoop S d events).1, b'), (runLoop S d events).2) := by
  suffices h : Yields (memRun S d b events) fun out =>
      out.1.1 = (runLoop S d events).1 ∧ out.2 = (runLoop S d events).2 by
    obtain ⟨⟨⟨d', b'⟩, effects⟩, hrun, rfl, rfl⟩ := h
    exact ⟨b', hrun⟩
  induction events generalizing d b with
  | nil => exact Yields.some ⟨rfl, rfl⟩
  | cons ev events ih =>
    refine Yields.bind (memStep_refines S d b ev) fun ⟨⟨d₁, b₁⟩, effects⟩ ⟨hd, heffects⟩ => ?_
    dsimp only at hd heffects ⊢
    subst hd heffects
    refine Yields.bind (ih (step S d ev).1 b₁) fun ⟨⟨d₂, b₂⟩, effects'⟩ ⟨hd', heffects'⟩ => ?_
    dsimp only at hd' heffects' ⊢
    subst hd' heffects'
    exact Yields.some ⟨rfl, rfl⟩

end

end VpnTunnel
