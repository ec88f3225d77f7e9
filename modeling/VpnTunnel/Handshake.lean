import VpnTunnel.Crypto
import VpnTunnel.Peer

/-!
# The handshake

This module models `src/handshake.c`: the two messages of a key exchange "based on the Noise IK
(Initiator Known static key) pattern", each with the function that creates it and the function that
consumes it.

    1. DH1 = X25519(e_i, S_r), DH2 = X25519(s_i, S_r): the initiation
    2. DH3 = X25519(e_r, E_i), DH4 = X25519(e_r, S_i): the response
    (key_send, key_recv) = KDF2(c, NULL, 0)

## The model

Each function is written out as in the source, over the record `Sodium`. What the source draws or
reads from outside is a parameter: the ephemeral private key, and the two parts of the time. A
function returns what it writes to its output parameters when it succeeds; an error says which code
it returns. `handshakeConsumeInitiation` also returns the timestamp it decrypted, a local of the
source, for the statements to speak about.

The chaining key `c` and the transcript hash `h` run through both messages. The second half of the
module says what they are without the code around them, as functions of what is mixed in
(`initiationHash`, `initiationKeys`, `responseKeys`, …), and the `…_eq_ok` lemmas say that this is
what the four functions compute: each accepts exactly when its exchanges succeed and its seals open.

## What is proved

* `handshakeCreateInitiation_eq_ok`, `handshakeConsumeInitiation_eq_ok`,
  `handshakeCreateResponse_eq_ok`, `handshakeConsumeResponse_eq_ok` — when each function succeeds,
  and what it then returns.
-/

namespace VpnTunnel

open Octets

variable {β : Type} [Octet β]

/-- The octets of a C string. -/
def asciiBytes (s : String) : List β := s.toList.map fun c => ofByte (BitVec.ofNat 8 c.toNat)

/-- What the chaining key starts from, `PROTOCOL_IDENTIFIER`. -/
def protocolIdentifier : List β := asciiBytes "VPN_Tunnel_Noise_IK_25519_ChaChaPoly_BLAKE2b"

/-- What the transcript hash starts from, `PROTOCOL_LABEL`. -/
def protocolLabel : List β := asciiBytes "VPN_Tunnel_v1_EduZx"

/-- What an initiator keeps until the response, `handshake_init_state_t`. -/
@[ext]
structure HandshakeInitState (β : Type) where
  /-- The ephemeral private key. -/
  ephemeralPrivate : Bytes β 32
  /-- The chaining key after the initiation. -/
  chainingKey : Bytes β 32
  /-- The transcript hash after the initiation. -/
  hash : Bytes β 32
  /-- The initiator's session index. -/
  localIndex : BitVec 32
  /-- The seconds of the timestamp sent. -/
  timestamp : BitVec 64

/-- What `handshake_consume_initiation` has written when it returns 0. -/
@[ext]
structure ConsumedInitiation (t : PeerTable β) where
  /-- The peer that sent it, `*out_peer`. -/
  peer : Fin t.peers.length
  /-- The message, `*out_parsed`. -/
  parsed : PacketHandshakeInit β
  /-- The chaining key. -/
  chainingKey : Bytes β 32
  /-- The transcript hash. -/
  hash : Bytes β 32
  /-- The timestamp decrypted, `timestamp_buf`. -/
  timestamp : Bytes β 12

/-- What `handshake_create_response` has written when it succeeds. -/
@[ext]
structure CreatedResponse (β : Type) where
  /-- The datagram. -/
  packet : List β
  /-- The key of outgoing packets. -/
  sendKey : Bytes β 32
  /-- The key of incoming packets. -/
  recvKey : Bytes β 32

/-- What `handshake_consume_response` has written when it returns 0. -/
@[ext]
structure ConsumedResponse (β : Type) where
  /-- The responder's session index, `*out_peer_index`. -/
  peerIndex : BitVec 32
  /-- The key of outgoing packets. -/
  sendKey : Bytes β 32
  /-- The key of incoming packets. -/
  recvKey : Bytes β 32

variable (S : Sodium β)

/-- Mix data into the transcript hash, `mix_hash`. More than 256 octets are ignored. -/
def mixHash (hash : Bytes β 32) (data : List β) : Bytes β 32 :=
  if data.length > 256 then hash else vpnCryptoHash S (hash.toList ++ data)

/-- The first chaining key and transcript hash, `init_chaining_and_hash`. -/
def initChainingAndHash : Bytes β 32 × Bytes β 32 :=
  (vpnCryptoHash S protocolIdentifier, vpnCryptoHash S protocolLabel)

/-- The 12 octets of a time: 8 of seconds, 4 of nanoseconds. -/
def timestampBytes (tvSec tvNsec : BitVec 64) : Bytes β 12 :=
  join (le64Write tvSec) (le32Write (tvNsec.setWidth 32)) rfl

/-- The seconds of a timestamp. -/
def timestampSec (timestamp : Bytes β 12) : BitVec 64 := le64Read (slice timestamp.toList 0 8 (by simp))

/-- Seal a field of a message: its ciphertext, then its tag. The transcript hash is the associated
data and the counter is 0. -/
def sealField {n k : ℕ} (m : Bytes β n) (hash key : Bytes β 32) (h : n + 16 = k) : Bytes β k :=
  let sealed := vpnCryptoAeadEncrypt S m hash.toList 0 key
  join sealed.1 sealed.2 h

/-- Open a field of a message: the tag is in the 16 octets behind the ciphertext. -/
def openField {n k : ℕ} (field : Bytes β k) (hash key : Bytes β 32) (h : n + 16 = k) : Except Errno (Bytes β n) :=
  vpnCryptoAeadDecrypt S (slice field.toList 0 n (by rw [List.Vector.toList_length]; omega))
    (slice field.toList n 16 (by rw [List.Vector.toList_length]; omega)) hash.toList 0 key

/-- The sealed static key: a key and a tag. -/
theorem encryptedStatic_length : 32 + 16 = 48 := rfl

/-- The sealed timestamp. -/
theorem encryptedTimestamp_length : 12 + 16 = 28 := rfl

/-- The sealed empty message: a tag. -/
theorem encryptedNothing_length : 0 + 16 = 16 := rfl

/-! ### The four functions -/

/-- Create an initiation, `handshake_create_initiation`. -/
def handshakeCreateInitiation (maxLen : ℕ) (myPrivkey myPubkey theirPubkey : Bytes β 32) (localIndex : BitVec 32)
    (ephemeralPrivate : Bytes β 32) (tvSec tvNsec : BitVec 64) :
    Except Errno (List β × HandshakeInitState β) :=
  if maxLen < 148 then .error .enospc
  else do
    let ephemeralPub := vpnCryptoGenerateKeypair S ephemeralPrivate
    let init := initChainingAndHash S
    let hash := mixHash S init.2 theirPubkey.toList
    let hash := mixHash S hash ephemeralPub.toList
    let chainingKey := vpnKdf1 S init.1 ephemeralPub.toList
    -- DH(e_i, S_r)
    let dh1 ← (vpnCryptoDh S theirPubkey ephemeralPrivate).mapError fun _ => .efault
    let keys := vpnKdf2 S chainingKey dh1.toList
    let encryptedStatic : Bytes β 48 := sealField S myPubkey hash keys.2 rfl
    let hash := mixHash S hash encryptedStatic.toList
    -- DH(s_i, S_r)
    let dh2 ← (vpnCryptoDh S theirPubkey myPrivkey).mapError fun _ => .efault
    let keys := vpnKdf2 S keys.1 dh2.toList
    let encryptedTimestamp : Bytes β 28 := sealField S (timestampBytes tvSec tvNsec) hash keys.2 rfl
    let hash := mixHash S hash encryptedTimestamp.toList
    let macKey := vpnCryptoHash S theirPubkey.toList
    let mac1 := vpnCryptoMac16 S macKey (ephemeralPub.toList ++ encryptedStatic.toList ++ encryptedTimestamp.toList)
    let packet ← packetSerializeHandshakeInit maxLen
      { senderIndex := localIndex
        unencryptedEphemeral := ephemeralPub
        encryptedStatic := encryptedStatic
        encryptedTimestamp := encryptedTimestamp
        mac1 := mac1
        mac2 := zeroBytes 16 }
    return (packet,
      { ephemeralPrivate := ephemeralPrivate
        chainingKey := keys.1
        hash := hash
        localIndex := localIndex
        timestamp := tvSec })

/-- Consume an initiation, `handshake_consume_initiation`. The MACs are not looked at. -/
def handshakeConsumeInitiation [DecidableEq β] (packet : List β) (myPrivkey myPubkey : Bytes β 32)
    (peerTable : PeerTable β) : Except Errno (ConsumedInitiation peerTable) := do
  let parsed ← packetParseHandshakeInit packet
  let init := initChainingAndHash S
  let hash := mixHash S init.2 myPubkey.toList
  let hash := mixHash S hash parsed.unencryptedEphemeral.toList
  let chainingKey := vpnKdf1 S init.1 parsed.unencryptedEphemeral.toList
  -- DH(s_r, E_i)
  let dh1 ← vpnCryptoDh S parsed.unencryptedEphemeral myPrivkey
  let keys := vpnKdf2 S chainingKey dh1.toList
  let theirStatic ← openField S (n := 32) parsed.encryptedStatic hash keys.2 rfl
  match peerFindByPubkey peerTable theirStatic with
  | none => .error .eacces
  | some peer =>
    let hash := mixHash S hash parsed.encryptedStatic.toList
    -- DH(s_r, S_i)
    let dh2 ← vpnCryptoDh S theirStatic myPrivkey
    let keys := vpnKdf2 S keys.1 dh2.toList
    let timestamp ← openField S (n := 12) parsed.encryptedTimestamp hash keys.2 rfl
    let last := (peerTable.peers.get peer).lastHandshakeTime
    if last ≠ 0 ∧ (timestampSec timestamp).sle last then .error .ebadmsg
    else
      let hash := mixHash S hash parsed.encryptedTimestamp.toList
      return { peer := peer, parsed := parsed, chainingKey := keys.1, hash := hash, timestamp := timestamp }

/-- Create a response and derive the transport keys, `handshake_create_response`. Of the private key
the source only checks that it is given. -/
def handshakeCreateResponse (maxLen : ℕ) (theirEphemeral theirStatic : Bytes β 32) (myIndex theirIndex : BitVec 32)
    (chainingKey hash : Bytes β 32) (ephemeralPriv : Bytes β 32) : Except Errno (CreatedResponse β) :=
  if maxLen < 92 then .error .enospc
  else do
    let ephemeralPub := vpnCryptoGenerateKeypair S ephemeralPriv
    let h := mixHash S hash ephemeralPub.toList
    let c := vpnKdf1 S chainingKey ephemeralPub.toList
    -- DH(e_r, E_i)
    let dh1 ← (vpnCryptoDh S theirEphemeral ephemeralPriv).mapError fun _ => .efault
    let c := vpnKdf1 S c dh1.toList
    -- DH(e_r, S_i)
    let dh2 ← (vpnCryptoDh S theirStatic ephemeralPriv).mapError fun _ => .efault
    let keys := vpnKdf2 S c dh2.toList
    let encryptedNothing : Bytes β 16 := sealField S (n := 0) List.Vector.nil h keys.2 rfl
    let transport := vpnKdf2 S keys.1 []
    let macKey := vpnCryptoHash S theirStatic.toList
    -- 52 octets from the ephemeral on: the MAC's own field, still cleared, begins in the last four
    let mac1 := vpnCryptoMac16 S macKey
      (ephemeralPub.toList ++ encryptedNothing.toList ++ (zeroBytes 4 : Bytes β 4).toList)
    let packet ← packetSerializeHandshakeResp maxLen
      { senderIndex := myIndex
        receiverIndex := theirIndex
        unencryptedEphemeral := ephemeralPub
        encryptedNothing := encryptedNothing
        mac1 := mac1
        mac2 := zeroBytes 16 }
    return { packet := packet, sendKey := transport.1, recvKey := transport.2 }

/-- Consume a response and derive the transport keys, `handshake_consume_response`. Of the other side's
static key the source only checks that it is given. -/
def handshakeConsumeResponse (packet : List β) (myPrivkey : Bytes β 32) (initState : HandshakeInitState β) :
    Except Errno (ConsumedResponse β) := do
  let msg ← packetParseHandshakeResp packet
  if msg.receiverIndex ≠ initState.localIndex then .error .ebadmsg
  else
    let h := mixHash S initState.hash msg.unencryptedEphemeral.toList
    let c := vpnKdf1 S initState.chainingKey msg.unencryptedEphemeral.toList
    -- DH(e_i, E_r)
    let dh1 ← vpnCryptoDh S msg.unencryptedEphemeral initState.ephemeralPrivate
    let c := vpnKdf1 S c dh1.toList
    -- DH(s_i, E_r)
    let dh2 ← vpnCryptoDh S msg.unencryptedEphemeral myPrivkey
    let keys := vpnKdf2 S c dh2.toList
    let _ ← openField S (n := 0) msg.encryptedNothing h keys.2 rfl
    let transport := vpnKdf2 S keys.1 []
    return { peerIndex := msg.senderIndex, sendKey := transport.2, recvKey := transport.1 }

/-! ### Sealed fields -/

section

variable {S} {n k : ℕ} {m m' : Bytes β n} {field : Bytes β k} {hash hash' key key' : Bytes β 32} {h : n + 16 = k}

/-- What was sealed opens. -/
theorem openField_sealField (hS : S.AeadInverts) : openField S (sealField S m hash key h) hash key h = .ok m := by
  unfold openField sealField
  dsimp only
  rw [slice_join_left, slice_join_right]
  exact hS.aeadDecrypt_aeadEncrypt m _ _ _

/-- In the symbolic reading only what was sealed opens. -/
theorem sealField_of_openField (hS : S.Symbolic) (hopen : openField S field hash key h = .ok m) :
    sealField S m hash key h = field := by
  have henc := hS.encrypt_of_decrypt (vpnCryptoAeadDecrypt_eq_ok.mp hopen)
  unfold sealField vpnCryptoAeadEncrypt
  rw [henc]
  exact join_slice_slice

/-- In the symbolic reading a sealed field determines the key, the transcript and what is in it. -/
theorem sealField_injective (hS : S.Symbolic) (heq : sealField S m hash key h = sealField S m' hash' key' h) :
    key = key' ∧ hash = hash' ∧ m = m' := by
  obtain ⟨hc, htag⟩ := join_inj (h := h) heq
  obtain ⟨hkey, -, hhash, hm⟩ := hS.encrypt_inj (Prod.ext hc htag)
  exact ⟨hkey, List.Vector.eq _ _ hhash, hm⟩

end

/-! ### The key schedule -/

/-- The transcript when the static key is sealed: the responder's key and the initiator's ephemeral. -/
def initiationHash₀ (Sr Ei : Bytes β 32) : Bytes β 32 :=
  mixHash S (mixHash S (initChainingAndHash S).2 Sr.toList) Ei.toList

/-- The transcript when the timestamp is sealed. -/
def initiationHash₁ (Sr Ei : Bytes β 32) (encryptedStatic : Bytes β 48) : Bytes β 32 :=
  mixHash S (initiationHash₀ S Sr Ei) encryptedStatic.toList

/-- The transcript after the initiation. -/
def initiationHash₂ (Sr Ei : Bytes β 32) (encryptedStatic : Bytes β 48) (encryptedTimestamp : Bytes β 28) :
    Bytes β 32 :=
  mixHash S (initiationHash₁ S Sr Ei encryptedStatic) encryptedTimestamp.toList

/-- The chaining key and the sealing key after the first exchange, with shared secret `z₁`. -/
def initiationKeys₁ (Ei z₁ : Bytes β 32) : Bytes β 32 × Bytes β 32 :=
  vpnKdf2 S (vpnKdf1 S (initChainingAndHash S).1 Ei.toList) z₁.toList

/-- The chaining key and the sealing key after the second exchange. -/
def initiationKeys₂ (Ei z₁ z₂ : Bytes β 32) : Bytes β 32 × Bytes β 32 :=
  vpnKdf2 S (initiationKeys₁ S Ei z₁).1 z₂.toList

/-- The chaining key and the sealing key after the two exchanges of the response, from the chaining
key of the initiation. -/
def responseKeys (chainingKey Er z₃ z₄ : Bytes β 32) : Bytes β 32 × Bytes β 32 :=
  vpnKdf2 S (vpnKdf1 S (vpnKdf1 S chainingKey Er.toList) z₃.toList) z₄.toList

/-- The tag of the empty message, from the transcript of the initiation. -/
def responseTag (chainingKey hash Er z₃ z₄ : Bytes β 32) : Bytes β 16 :=
  sealField S (n := 0) List.Vector.nil (mixHash S hash Er.toList) (responseKeys S chainingKey Er z₃ z₄).2 rfl

/-- The transport keys, from the responder to the initiator and back. -/
def transportKeys (chainingKey Er z₃ z₄ : Bytes β 32) : Bytes β 32 × Bytes β 32 :=
  vpnKdf2 S (responseKeys S chainingKey Er z₃ z₄).1 []

/-- The initiation an initiator sends, given the two shared secrets. -/
def initiationMsg (myPubkey theirPubkey : Bytes β 32) (localIndex : BitVec 32) (Ei : Bytes β 32)
    (timestamp : Bytes β 12) (z₁ z₂ : Bytes β 32) : PacketHandshakeInit β :=
  let encryptedStatic := sealField S myPubkey (initiationHash₀ S theirPubkey Ei) (initiationKeys₁ S Ei z₁).2 rfl
  let encryptedTimestamp :=
    sealField S timestamp (initiationHash₁ S theirPubkey Ei encryptedStatic) (initiationKeys₂ S Ei z₁ z₂).2 rfl
  { senderIndex := localIndex
    unencryptedEphemeral := Ei
    encryptedStatic := encryptedStatic
    encryptedTimestamp := encryptedTimestamp
    mac1 := vpnCryptoMac16 S (vpnCryptoHash S theirPubkey.toList)
      (Ei.toList ++ encryptedStatic.toList ++ encryptedTimestamp.toList)
    mac2 := zeroBytes 16 }

/-- What the initiator keeps. -/
def initiationState (msg : PacketHandshakeInit β) (theirPubkey ephemeralPrivate z₁ z₂ : Bytes β 32)
    (tvSec : BitVec 64) : HandshakeInitState β :=
  { ephemeralPrivate := ephemeralPrivate
    chainingKey := (initiationKeys₂ S msg.unencryptedEphemeral z₁ z₂).1
    hash := initiationHash₂ S theirPubkey msg.unencryptedEphemeral msg.encryptedStatic msg.encryptedTimestamp
    localIndex := msg.senderIndex
    timestamp := tvSec }

/-- The response a responder sends, given the two shared secrets. -/
def responseMsg (theirStatic : Bytes β 32) (myIndex theirIndex : BitVec 32) (chainingKey hash Er z₃ z₄ : Bytes β 32) :
    PacketHandshakeResp β :=
  { senderIndex := myIndex
    receiverIndex := theirIndex
    unencryptedEphemeral := Er
    encryptedNothing := responseTag S chainingKey hash Er z₃ z₄
    mac1 := vpnCryptoMac16 S (vpnCryptoHash S theirStatic.toList)
      (Er.toList ++ (responseTag S chainingKey hash Er z₃ z₄).toList ++ (zeroBytes 4 : Bytes β 4).toList)
    mac2 := zeroBytes 16 }

/-! ### When the functions succeed -/

variable {S}

section

variable {maxLen : ℕ} {myPriv myPub theirPub ei : Bytes β 32} {idx : BitVec 32} {tvSec tvNsec : BitVec 64}

/-- **`handshake_create_initiation` succeeds** when both exchanges do. -/
theorem handshakeCreateInitiation_eq_ok {packet : List β} {st : HandshakeInitState β} :
    handshakeCreateInitiation S maxLen myPriv myPub theirPub idx ei tvSec tvNsec = .ok (packet, st) ↔
      148 ≤ maxLen ∧ ∃ z₁ z₂, S.scalarmult ei theirPub = some z₁ ∧ S.scalarmult myPriv theirPub = some z₂ ∧
        ∃ msg, msg = initiationMsg S myPub theirPub idx (S.scalarmultBase ei) (timestampBytes tvSec tvNsec) z₁ z₂ ∧
          packet = msg.wire ∧ st = initiationState S msg theirPub ei z₁ z₂ tvSec := by
  unfold handshakeCreateInitiation
  by_cases hlen : maxLen < 148
  · simp only [hlen, if_true, reduceCtorEq, Nat.not_le.mpr hlen, false_and]
  · have hlen' : 148 ≤ maxLen := Nat.not_lt.mp hlen
    rw [if_neg hlen]
    simp only [bind_eq_ok, mapError_eq_ok, vpnCryptoDh_eq_ok, packetSerializeHandshakeInit_ok hlen', Except.ok.injEq,
      hlen', true_and, pure, Except.pure]
    constructor
    · rintro ⟨z₁, h₁, z₂, h₂, _, rfl, heq⟩
      cases heq
      exact ⟨z₁, z₂, h₁, h₂, _, rfl, rfl, rfl⟩
    · rintro ⟨z₁, z₂, h₁, h₂, _, rfl, rfl, rfl⟩
      exact ⟨z₁, h₁, z₂, h₂, _, rfl, rfl⟩

end

/-- What the responder with private key `myPriv` and public key `Sr` finds in an initiation: the
shared secrets `z₁` and `z₂`, the initiator's static key and the timestamp. -/
structure InitiationOpens (S : Sodium β) (myPriv Sr : Bytes β 32) (msg : PacketHandshakeInit β)
    (z₁ theirStatic z₂ : Bytes β 32) (timestamp : Bytes β 12) : Prop where
  /-- The exchange with the ephemeral. -/
  dh₁ : S.scalarmult myPriv msg.unencryptedEphemeral = some z₁
  /-- The static key opens. -/
  static : openField S msg.encryptedStatic (initiationHash₀ S Sr msg.unencryptedEphemeral)
    (initiationKeys₁ S msg.unencryptedEphemeral z₁).2 rfl = .ok theirStatic
  /-- The exchange with the static key. -/
  dh₂ : S.scalarmult myPriv theirStatic = some z₂
  /-- The timestamp opens. -/
  timestamp : openField S msg.encryptedTimestamp
    (initiationHash₁ S Sr msg.unencryptedEphemeral msg.encryptedStatic)
    (initiationKeys₂ S msg.unencryptedEphemeral z₁ z₂).2 rfl = .ok timestamp

/-- An initiation opens in one way. -/
theorem InitiationOpens.unique {myPriv Sr z₁ k z₂ z₁' k' z₂' : Bytes β 32} {msg : PacketHandshakeInit β}
    {ts ts' : Bytes β 12} (h : InitiationOpens S myPriv Sr msg z₁ k z₂ ts)
    (h' : InitiationOpens S myPriv Sr msg z₁' k' z₂' ts') : k = k' ∧ ts = ts' := by
  obtain ⟨h₁, hk, h₂, hts⟩ := h
  obtain ⟨h₁', hk', h₂', hts'⟩ := h'
  cases h₁.symm.trans h₁'
  cases hk.symm.trans hk'
  cases h₂.symm.trans h₂'
  exact ⟨rfl, Except.ok.inj (hts.symm.trans hts')⟩

/-- The time stored for a peer refuses a timestamp. -/
def Stale (last : BitVec 64) (timestamp : Bytes β 12) : Prop := last ≠ 0 ∧ (timestampSec timestamp).sle last

/-- **`handshake_consume_initiation` succeeds** when the message opens, to the static key of a peer and
a timestamp that is not stale. -/
theorem handshakeConsumeInitiation_eq_ok [DecidableEq β] {packet : List β} {myPriv myPub : Bytes β 32}
    {t : PeerTable β} {r : ConsumedInitiation t} :
    handshakeConsumeInitiation S packet myPriv myPub t = .ok r ↔
      packetParseHandshakeInit packet = .ok r.parsed ∧ ∃ z₁ theirStatic z₂,
        InitiationOpens S myPriv myPub r.parsed z₁ theirStatic z₂ r.timestamp ∧
        peerFindByPubkey t theirStatic = some r.peer ∧
        ¬ Stale (t.peers.get r.peer).lastHandshakeTime r.timestamp ∧
        r.chainingKey = (initiationKeys₂ S r.parsed.unencryptedEphemeral z₁ z₂).1 ∧
        r.hash = initiationHash₂ S myPub r.parsed.unencryptedEphemeral r.parsed.encryptedStatic
          r.parsed.encryptedTimestamp := by
  constructor
  · intro h
    obtain ⟨parsed, hparse, h⟩ := bind_eq_ok.mp h
    dsimp only at h
    obtain ⟨z₁, h₁, h⟩ := bind_eq_ok.mp h
    obtain ⟨theirStatic, hstatic, h⟩ := bind_eq_ok.mp h
    split at h
    · cases h
    · next peer hpeer =>
      obtain ⟨z₂, h₂, h⟩ := bind_eq_ok.mp h
      obtain ⟨timestamp, hts, h⟩ := bind_eq_ok.mp h
      split at h
      · cases h
      · next hfresh =>
        cases h
        exact ⟨hparse, z₁, theirStatic, z₂, ⟨vpnCryptoDh_eq_ok.mp h₁, hstatic, vpnCryptoDh_eq_ok.mp h₂, hts⟩,
          hpeer, hfresh, rfl, rfl⟩
  · rintro ⟨hparse, z₁, theirStatic, z₂, ⟨h₁, hstatic, h₂, hts⟩, hpeer, hfresh, hc, hh⟩
    refine bind_eq_ok.mpr ⟨_, hparse, bind_eq_ok.mpr ⟨z₁, vpnCryptoDh_eq_ok.mpr h₁,
      bind_eq_ok.mpr ⟨theirStatic, hstatic, ?_⟩⟩⟩
    rw [hpeer]
    refine bind_eq_ok.mpr ⟨z₂, vpnCryptoDh_eq_ok.mpr h₂, bind_eq_ok.mpr ⟨_, hts, ?_⟩⟩
    exact (if_neg hfresh).trans (congrArg Except.ok (ConsumedInitiation.ext rfl rfl hc.symm hh.symm rfl))

/-- **`handshake_create_response` succeeds** when both exchanges do. -/
theorem handshakeCreateResponse_eq_ok {maxLen : ℕ} {theirEph theirStatic ck hash er : Bytes β 32}
    {myIdx theirIdx : BitVec 32} {r : CreatedResponse β} :
    handshakeCreateResponse S maxLen theirEph theirStatic myIdx theirIdx ck hash er = .ok r ↔
      92 ≤ maxLen ∧ ∃ z₃ z₄, S.scalarmult er theirEph = some z₃ ∧ S.scalarmult er theirStatic = some z₄ ∧
        r.packet = (responseMsg S theirStatic myIdx theirIdx ck hash (S.scalarmultBase er) z₃ z₄).wire ∧
        r.sendKey = (transportKeys S ck (S.scalarmultBase er) z₃ z₄).1 ∧
        r.recvKey = (transportKeys S ck (S.scalarmultBase er) z₃ z₄).2 := by
  unfold handshakeCreateResponse
  by_cases hlen : maxLen < 92
  · simp only [hlen, if_true, reduceCtorEq, Nat.not_le.mpr hlen, false_and]
  · have hlen' : 92 ≤ maxLen := Nat.not_lt.mp hlen
    rw [if_neg hlen]
    simp only [bind_eq_ok, mapError_eq_ok, vpnCryptoDh_eq_ok, packetSerializeHandshakeResp_ok hlen', Except.ok.injEq,
      hlen', true_and, pure, Except.pure]
    constructor
    · rintro ⟨z₃, h₃, z₄, h₄, _, rfl, rfl⟩
      exact ⟨z₃, z₄, h₃, h₄, rfl, rfl, rfl⟩
    · rintro ⟨z₃, z₄, h₃, h₄, hp, hs, hr⟩
      exact ⟨z₃, h₃, z₄, h₄, _, rfl, CreatedResponse.ext hp.symm hs.symm hr.symm⟩

/-- **`handshake_consume_response` succeeds** when the response names the initiator's session, both
exchanges succeed and the tag opens. -/
theorem handshakeConsumeResponse_eq_ok {packet : List β} {myPriv : Bytes β 32} {st : HandshakeInitState β}
    {r : ConsumedResponse β} :
    handshakeConsumeResponse S packet myPriv st = .ok r ↔
      ∃ msg, packetParseHandshakeResp packet = .ok msg ∧ msg.receiverIndex = st.localIndex ∧ ∃ z₃ z₄,
        S.scalarmult st.ephemeralPrivate msg.unencryptedEphemeral = some z₃ ∧
        S.scalarmult myPriv msg.unencryptedEphemeral = some z₄ ∧
        openField S msg.encryptedNothing (mixHash S st.hash msg.unencryptedEphemeral.toList)
          (responseKeys S st.chainingKey msg.unencryptedEphemeral z₃ z₄).2 rfl = .ok List.Vector.nil ∧
        r = { peerIndex := msg.senderIndex
              sendKey := (transportKeys S st.chainingKey msg.unencryptedEphemeral z₃ z₄).2
              recvKey := (transportKeys S st.chainingKey msg.unencryptedEphemeral z₃ z₄).1 } := by
  constructor
  · intro h
    obtain ⟨msg, hparse, h⟩ := bind_eq_ok.mp h
    split at h
    · cases h
    · next hidx =>
      obtain ⟨z₃, h₃, h⟩ := bind_eq_ok.mp h
      obtain ⟨z₄, h₄, h⟩ := bind_eq_ok.mp h
      obtain ⟨m, hopen, h⟩ := bind_eq_ok.mp h
      cases h
      rw [List.Vector.eq_nil m] at hopen
      exact ⟨msg, hparse, not_not.mp hidx, z₃, z₄, vpnCryptoDh_eq_ok.mp h₃, vpnCryptoDh_eq_ok.mp h₄, hopen, rfl⟩
  · rintro ⟨msg, hparse, hidx, z₃, z₄, h₃, h₄, hopen, rfl⟩
    refine bind_eq_ok.mpr ⟨msg, hparse, ?_⟩
    rw [if_neg (not_not.mpr hidx)]
    exact bind_eq_ok.mpr ⟨z₃, vpnCryptoDh_eq_ok.mpr h₃, bind_eq_ok.mpr ⟨z₄, vpnCryptoDh_eq_ok.mpr h₄,
      bind_eq_ok.mpr ⟨_, hopen, rfl⟩⟩⟩

/-! ### Runs of the two sides -/

/-- A run of `handshake_create_initiation` that succeeded, with its arguments and what it returned. -/
structure InitiationRun (S : Sodium β) where
  /-- The room in the caller's buffer. -/
  maxLen : ℕ
  /-- The initiator's private key. -/
  myPriv : Bytes β 32
  /-- The initiator's public key. -/
  myPub : Bytes β 32
  /-- The public key of the responder it is aimed at. -/
  theirPub : Bytes β 32
  /-- The initiator's session index. -/
  localIndex : BitVec 32
  /-- The ephemeral private key drawn. -/
  ephemeral : Bytes β 32
  /-- The seconds of the time. -/
  tvSec : BitVec 64
  /-- The nanoseconds of the time. -/
  tvNsec : BitVec 64
  /-- The datagram. -/
  packet : List β
  /-- What is kept for the response. -/
  state : HandshakeInitState β
  /-- The run. -/
  created : handshakeCreateInitiation S maxLen myPriv myPub theirPub localIndex ephemeral tvSec tvNsec =
    .ok (packet, state)

/-- A run of `handshake_create_response` that succeeded, with its arguments and what it returned. -/
structure ResponseRun (S : Sodium β) where
  /-- The room in the caller's buffer. -/
  maxLen : ℕ
  /-- The initiator's ephemeral key. -/
  theirEphemeral : Bytes β 32
  /-- The initiator's static key. -/
  theirStatic : Bytes β 32
  /-- The responder's session index. -/
  myIndex : BitVec 32
  /-- The initiator's session index. -/
  theirIndex : BitVec 32
  /-- The chaining key after the initiation. -/
  chainingKey : Bytes β 32
  /-- The transcript hash after the initiation. -/
  hash : Bytes β 32
  /-- The ephemeral private key drawn. -/
  ephemeral : Bytes β 32
  /-- The response and the keys. -/
  response : CreatedResponse β
  /-- The run. -/
  created : handshakeCreateResponse S maxLen theirEphemeral theirStatic myIndex theirIndex chainingKey hash ephemeral =
    .ok response

/-- What a run of `handshake_create_initiation` sent and keeps. -/
theorem InitiationRun.message (run : InitiationRun S) : ∃ z₁ z₂, S.scalarmult run.ephemeral run.theirPub = some z₁ ∧
    S.scalarmult run.myPriv run.theirPub = some z₂ ∧ ∃ msg, packetParseHandshakeInit run.packet = .ok msg ∧
      msg = initiationMsg S run.myPub run.theirPub run.localIndex (S.scalarmultBase run.ephemeral)
        (timestampBytes run.tvSec run.tvNsec) z₁ z₂ ∧
      run.state = initiationState S msg run.theirPub run.ephemeral z₁ z₂ run.tvSec := by
  obtain ⟨-, z₁, z₂, h₁, h₂, msg, hmsg, hpacket, hstate⟩ := handshakeCreateInitiation_eq_ok.mp run.created
  exact ⟨z₁, z₂, h₁, h₂, msg, by rw [hpacket, packetParseHandshakeInit_wire], hmsg, hstate⟩

/-- What a run of `handshake_create_response` sent and derived. -/
theorem ResponseRun.message (run : ResponseRun S) : ∃ z₃ z₄, S.scalarmult run.ephemeral run.theirEphemeral = some z₃ ∧
    S.scalarmult run.ephemeral run.theirStatic = some z₄ ∧
      packetParseHandshakeResp run.response.packet = .ok (responseMsg S run.theirStatic run.myIndex run.theirIndex
        run.chainingKey run.hash (S.scalarmultBase run.ephemeral) z₃ z₄) ∧
      run.response.sendKey = (transportKeys S run.chainingKey (S.scalarmultBase run.ephemeral) z₃ z₄).1 ∧
      run.response.recvKey = (transportKeys S run.chainingKey (S.scalarmultBase run.ephemeral) z₃ z₄).2 := by
  obtain ⟨-, z₃, z₄, h₃, h₄, hpacket, hsend, hrecv⟩ := handshakeCreateResponse_eq_ok.mp run.created
  exact ⟨z₃, z₄, h₃, h₄, by rw [hpacket, packetParseHandshakeResp_wire], hsend, hrecv⟩

end VpnTunnel
