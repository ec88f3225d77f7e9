import VpnTunnel.Delivery
import VpnTunnel.Lib.Deduction

/-!
# What an eavesdropper learns

An eavesdropper records datagrams, knows some keys, and computes with the functions of the library.
This module says what it can find out about the transport keys of a handshake, over any library.

## The model

Knowledge is a set of octets: who has a string has its octets, and can cut strings and put them
together. `Attack` says what a call of the library adds. A run is the four functions of
`src/handshake.c`, each given what the other side sent (`HonestRun`); its datagrams are the two
messages, and any packets sealed under its keys.

## The argument

Let `safe` be a set of octets that contains the public keys and that no call leads out of, where a
digest is in it only if everything hashed is, and a shared secret only if one of the private keys is
(`Sodium.Secrecy`). The datagrams of every run lie in it: they are public keys, sealed fields and
digests of them. The transport keys of a run with both ephemeral private keys outside it lie outside,
because the chaining key has absorbed the secret the two ephemeral keys share.

## What is proved

* `HonestRun.wire_within` — the datagrams of a run are safe.
* `HonestRun.keys_outside` — its transport keys are not.
-/

namespace VpnTunnel

open Octets

variable {β : Type} [Octet β]

/-- A string lies in a set of octets. -/
def Within (known : Set β) (l : List β) : Prop := ∀ x ∈ l, x ∈ known

/-- What the eavesdropper can find in one step: an octet of what a function of the library returns when
it is called with strings that are known. -/
inductive Attack (S : Sodium β) (known : Set β) : β → Prop
  /-- Any byte. -/
  | byte (b : BitVec 8) : Attack S known (ofByte b)
  /-- An octet of a digest, keyed or not. -/
  | hash {outLen : ℕ} {msg key : List β} {y : β} (hmsg : Within known msg) (hkey : Within known key)
      (hy : y ∈ (S.generichash outLen msg key).toList) : Attack S known y
  /-- An octet of a ciphertext or a tag. -/
  | encrypt {n : ℕ} {key : Bytes β 32} {nonce : Bytes β 12} {ad : List β} {m : Bytes β n} {y : β}
      (hkey : Within known key.toList) (hnonce : Within known nonce.toList) (had : Within known ad)
      (hm : Within known m.toList)
      (hy : y ∈ (S.encryptDetached key nonce ad m).1.toList ∨ y ∈ (S.encryptDetached key nonce ad m).2.toList) :
      Attack S known y
  /-- An octet of what a ciphertext opens to. -/
  | decrypt {n : ℕ} {key : Bytes β 32} {nonce : Bytes β 12} {ad : List β} {c m : Bytes β n} {tag : Bytes β 16} {y : β}
      (hkey : Within known key.toList) (hnonce : Within known nonce.toList) (had : Within known ad)
      (hc : Within known c.toList) (htag : Within known tag.toList)
      (hopens : S.decryptDetached key nonce ad c tag = some m) (hy : y ∈ m.toList) : Attack S known y
  /-- An octet of the public key of a private key. -/
  | pub {a : Bytes β 32} {y : β} (ha : Within known a.toList) (hy : y ∈ (S.scalarmultBase a).toList) :
      Attack S known y
  /-- An octet of a shared secret. -/
  | dh {a p z : Bytes β 32} {y : β} (ha : Within known a.toList) (hp : Within known p.toList)
      (hz : S.scalarmult a p = some z) (hy : y ∈ z.toList) : Attack S known y

/-- The set `safe` of octets keeps the rest secret: no call of the library leads out of it, and what is
computed from something outside stays outside. -/
structure Sodium.Secrecy (S : Sodium β) (safe : Set β) : Prop where
  /-- Every byte is safe. -/
  byte : ∀ b, ofByte b ∈ safe
  /-- So is a digest of safe strings. -/
  hash : ∀ {outLen msg key}, Within safe msg → Within safe key → Within safe (S.generichash outLen msg key).toList
  /-- No octet of another digest is. -/
  of_hash : ∀ {outLen msg key x}, x ∈ (S.generichash outLen msg key).toList → x ∈ safe →
    Within safe msg ∧ Within safe key
  /-- A safe plaintext can be sealed under any key. -/
  encrypt : ∀ {n : ℕ} (key nonce ad) {m : Bytes β n}, Within safe m.toList →
    Within safe (S.encryptDetached key nonce ad m).1.toList ∧ Within safe (S.encryptDetached key nonce ad m).2.toList
  /-- What opens under a safe key is safe. -/
  decrypt : ∀ {n key nonce ad} {c m : Bytes β n} {tag}, Within safe key.toList → Within safe tag.toList →
    S.decryptDetached key nonce ad c tag = some m → Within safe m.toList
  /-- Public keys are safe. -/
  pub : ∀ a, Within safe (S.scalarmultBase a).toList
  /-- A secret shared with a safe private key is. -/
  dh : ∀ {a p z}, Within safe a.toList → S.scalarmult a p = some z → Within safe z.toList
  /-- No octet of another shared secret is. -/
  of_dh : ∀ {a b z x}, S.scalarmult a (S.scalarmultBase b) = some z → x ∈ z.toList → x ∈ safe →
    Within safe a.toList ∨ Within safe b.toList

variable {S : Sodium β} {safe : Set β}

/-- The eavesdropper does not get out of a safe set. -/
theorem Sodium.Secrecy.closed (hS : S.Secrecy safe) : Deduction.Closed (Attack S) safe := by
  intro known x hknown hx
  have hwithin : ∀ {l : List β}, Within known l → Within safe l := fun h y hy => hknown (h y hy)
  cases hx with
  | byte b => exact hS.byte b
  | hash hmsg hkey hy => exact hS.hash (hwithin hmsg) (hwithin hkey) _ hy
  | encrypt _ _ _ hm hy =>
    rcases hy with hy | hy
    · exact (hS.encrypt _ _ _ (hwithin hm)).1 _ hy
    · exact (hS.encrypt _ _ _ (hwithin hm)).2 _ hy
  | decrypt hkey _ _ _ htag hopens hy => exact hS.decrypt (hwithin hkey) (hwithin htag) hopens _ hy
  | pub _ hy => exact hS.pub _ _ hy
  | dh ha _ hz hy => exact hS.dh (hwithin ha) hz _ hy

/-! ### Strings in a safe set -/

section

variable {known : Set β} {l l' : List β}

omit [Octet β]

theorem within_nil : Within known [] := nofun

theorem within_append : Within known (l ++ l') ↔ Within known l ∧ Within known l' := by
  unfold Within
  rw [List.forall_mem_append]

/-- A string that is not empty lies in no set its octets are outside of. -/
theorem exists_mem_toList {n : ℕ} (v : Bytes β (n + 1)) : ∃ x, x ∈ v.toList :=
  List.exists_mem_of_length_pos (by rw [List.Vector.toList_length]; exact Nat.succ_pos n)

end

section

variable (hS : S.Secrecy safe)

include hS

theorem Sodium.Secrecy.leWriteFrom {w : ℕ} (v : BitVec w) (off n : ℕ) : Within safe (leWriteFrom v off n) := by
  induction n generalizing off with
  | zero => exact within_nil
  | succ n ih => exact List.forall_mem_cons.mpr ⟨hS.byte _, ih (off + 1)⟩

theorem Sodium.Secrecy.zeroBytes (n : ℕ) : Within safe (zeroBytes n : Bytes β n).toList := by
  intro x hx
  have heq : x = ofByte 0 := List.eq_of_mem_replicate hx
  rw [heq]
  exact hS.byte _

theorem Sodium.Secrecy.wireHeader {type : β} (h : type ∈ safe) : Within safe (wireHeader type) := by
  intro x hx
  simp only [VpnTunnel.wireHeader, List.mem_cons, List.not_mem_nil, or_false] at hx
  rcases hx with rfl | rfl | rfl | rfl
  · exact h
  all_goals exact hS.byte _

theorem Sodium.Secrecy.timestampBytes (tvSec tvNsec : BitVec 64) :
    Within safe (timestampBytes tvSec tvNsec : Bytes β 12).toList := by
  rw [VpnTunnel.timestampBytes, toList_join, within_append]
  exact ⟨hS.leWriteFrom _ _ _, hS.leWriteFrom _ _ _⟩

/-- A sealed field is safe when what is in it is. -/
theorem Sodium.Secrecy.sealField {n k : ℕ} {m : Bytes β n} (hm : Within safe m.toList) (h : n + 16 = k)
    (hash key : Bytes β 32) : Within safe (sealField S m hash key h).toList := by
  unfold VpnTunnel.sealField vpnCryptoAeadEncrypt
  rw [toList_join, within_append]
  exact hS.encrypt _ _ _ hm

/-- A MAC of safe octets under a hashed public key. -/
theorem Sodium.Secrecy.mac1 {pub : Bytes β 32} {l : List β} (hpub : Within safe pub.toList) (hl : Within safe l) :
    Within safe (vpnCryptoMac16 S (vpnCryptoHash S pub.toList) l).toList :=
  hS.hash hl (hS.hash hpub within_nil)

/-- The initiation is safe, whatever was exchanged. -/
theorem Sodium.Secrecy.initiationMsg {si sr ei : Bytes β 32} {idx : BitVec 32} {tvSec tvNsec : BitVec 64}
    {z₁ z₂ : Bytes β 32} : Within safe (initiationMsg S (S.scalarmultBase si) (S.scalarmultBase sr) idx
      (S.scalarmultBase ei) (VpnTunnel.timestampBytes tvSec tvNsec) z₁ z₂).wire := by
  have hstatic := hS.sealField (hS.pub si) rfl
  have hstamp := hS.sealField (hS.timestampBytes tvSec tvNsec) rfl
  simp only [PacketHandshakeInit.wire, VpnTunnel.initiationMsg, within_append]
  refine ⟨hS.wireHeader (hS.byte _), hS.leWriteFrom _ _ _, hS.pub ei, hstatic _ _, hstamp _ _, hS.mac1 (hS.pub sr) ?_,
    hS.zeroBytes 16⟩
  simp only [within_append]
  exact ⟨⟨hS.pub ei, hstatic _ _⟩, hstamp _ _⟩

/-- So is the response. -/
theorem Sodium.Secrecy.responseMsg {theirStatic : Bytes β 32} (hpub : Within safe theirStatic.toList) {er : Bytes β 32}
    {myIdx theirIdx : BitVec 32} {chainingKey hash z₃ z₄ : Bytes β 32} :
    Within safe (responseMsg S theirStatic myIdx theirIdx chainingKey hash (S.scalarmultBase er) z₃ z₄).wire := by
  have htag := hS.sealField (m := List.Vector.nil) within_nil rfl
  simp only [PacketHandshakeResp.wire, VpnTunnel.responseMsg, responseTag, within_append]
  refine ⟨hS.wireHeader (hS.byte _), hS.leWriteFrom _ _ _, hS.leWriteFrom _ _ _, hS.pub er, htag _ _, hS.mac1 hpub ?_,
    hS.zeroBytes 16⟩
  simp only [within_append]
  exact ⟨⟨hS.pub er, htag _ _⟩, hS.zeroBytes 4⟩

/-- So is a data packet with safe contents, under any key. -/
theorem Sodium.Secrecy.sealedPacket (s : Session β) {b : List β} (hb : Within safe b) :
    Within safe (sealedPacket S s b).wire := by
  have henc := hS.encrypt s.sendKey (vpnCryptoFormatNonce s.sendingCounter) [] (m := ofList b)
    (by rw [toList_ofList]; exact hb)
  simp only [PacketData.wire, VpnTunnel.sealedPacket, within_append]
  refine ⟨hS.wireHeader ?_, hS.leWriteFrom _ _ _, hS.leWriteFrom _ _ _, henc.1, henc.2⟩
  unfold PacketData.wireType
  split
  · exact hS.byte _
  · exact hS.byte _

end

/-! ### A run of the handshake -/

variable [DecidableEq β]

/-- A run of the four handshake functions, each given what the other side has sent. -/
structure HonestRun (S : Sodium β) where
  /-- The initiator's static private key. -/
  initiatorStatic : Bytes β 32
  /-- The responder's static private key. -/
  responderStatic : Bytes β 32
  /-- The initiator's ephemeral private key. -/
  initiatorEphemeral : Bytes β 32
  /-- The responder's ephemeral private key. -/
  responderEphemeral : Bytes β 32
  /-- The initiator's session index. -/
  initiatorIndex : BitVec 32
  /-- The responder's session index. -/
  responderIndex : BitVec 32
  /-- The seconds of the initiator's clock. -/
  tvSec : BitVec 64
  /-- The nanoseconds. -/
  tvNsec : BitVec 64
  /-- The room in the initiator's buffer. -/
  initiatorLen : ℕ
  /-- The room in the responder's buffer. -/
  responderLen : ℕ
  /-- The responder's peers. -/
  table : PeerTable β
  /-- The initiation. -/
  initiation : List β
  /-- What the initiator keeps. -/
  state : HandshakeInitState β
  /-- What the responder has then. -/
  consumed : ConsumedInitiation table
  /-- The response, with the responder's transport keys. -/
  response : CreatedResponse β
  /-- What the initiator has then, its transport keys among it. -/
  finished : ConsumedResponse β
  /-- The initiator creates the initiation. -/
  creates : handshakeCreateInitiation S initiatorLen initiatorStatic (S.scalarmultBase initiatorStatic)
    (S.scalarmultBase responderStatic) initiatorIndex initiatorEphemeral tvSec tvNsec = .ok (initiation, state)
  /-- The responder consumes it. -/
  consumes : handshakeConsumeInitiation S initiation responderStatic (S.scalarmultBase responderStatic) table =
    .ok consumed
  /-- The responder creates the response. -/
  responds : handshakeCreateResponse S responderLen consumed.parsed.unencryptedEphemeral
    (table.peers.get consumed.peer).publicKey responderIndex consumed.parsed.senderIndex consumed.chainingKey
    consumed.hash responderEphemeral = .ok response
  /-- The initiator consumes it. -/
  finishes : handshakeConsumeResponse S response.packet initiatorStatic state = .ok finished

/-- The datagrams of a run: the two messages, and data packets of bytes sealed under its keys. -/
def HonestRun.wire (run : HonestRun S) : Set (List β) :=
  {b | b = run.initiation ∨ b = run.response.packet ∨ ∃ (s : Session β) (payload : List (BitVec 8)),
    (s.sendKey = run.response.sendKey ∨ s.sendKey = run.response.recvKey) ∧
    b = (sealedPacket S s (payload.map ofByte)).wire}

/-- The message the initiator has sent is the one the responder has parsed. -/
theorem HonestRun.message (run : HonestRun S) : ∃ z₁ z₂,
    S.scalarmult run.initiatorEphemeral (S.scalarmultBase run.responderStatic) = some z₁ ∧
    run.consumed.parsed = initiationMsg S (S.scalarmultBase run.initiatorStatic)
      (S.scalarmultBase run.responderStatic) run.initiatorIndex (S.scalarmultBase run.initiatorEphemeral)
      (timestampBytes run.tvSec run.tvNsec) z₁ z₂ ∧
    run.initiation = run.consumed.parsed.wire ∧ run.state.ephemeralPrivate = run.initiatorEphemeral := by
  obtain ⟨-, z₁, z₂, h₁, -, msg, hmsg, hwire, hstate⟩ := handshakeCreateInitiation_eq_ok.mp run.creates
  obtain ⟨hparse, -⟩ := handshakeConsumeInitiation_eq_ok.mp run.consumes
  rw [hwire, packetParseHandshakeInit_wire] at hparse
  obtain rfl := Except.ok.inj hparse
  exact ⟨z₁, z₂, h₁, hmsg, hwire, by rw [hstate]; rfl⟩

/-- The responder has recognised the initiator. -/
theorem HonestRun.recognised (hS : S.Correct) (run : HonestRun S) :
    (run.table.peers.get run.consumed.peer).publicKey = S.scalarmultBase run.initiatorStatic := by
  obtain ⟨z₁, z₂, h₁, hmsg, -⟩ := run.message
  obtain ⟨-, z₁', theirStatic, z₂', hopens, hfind, -⟩ := handshakeConsumeInitiation_eq_ok.mp run.consumes
  have hdh := hopens.dh₁
  have hstatic := hopens.static
  rw [hmsg] at hdh hstatic
  rw [hS.dh_comm] at h₁
  obtain rfl := Option.some.inj (h₁.symm.trans hdh)
  rw [(peerFindByPubkey_eq_some.mp hfind).1]
  exact Except.ok.inj (hstatic.symm.trans (openField_sealField hS.decrypt_encrypt))

/-- **The datagrams of a run are safe**, whatever its keys are. -/
theorem HonestRun.wire_within (hS : S.Secrecy safe) (hcorrect : S.Correct) (run : HonestRun S) {b : List β}
    (hb : b ∈ run.wire) : Within safe b := by
  rcases hb with rfl | rfl | ⟨s, payload, -, rfl⟩
  · obtain ⟨z₁, z₂, -, hmsg, hwire, -⟩ := run.message
    rw [hwire, hmsg]
    exact hS.initiationMsg
  · obtain ⟨-, z₃, z₄, -, -, hpacket, -⟩ := handshakeCreateResponse_eq_ok.mp run.responds
    rw [hpacket]
    exact hS.responseMsg (by rw [run.recognised hcorrect]; exact hS.pub _)
  · refine hS.sealedPacket s fun x hx => ?_
    obtain ⟨byte, -, rfl⟩ := List.mem_map.mp hx
    exact hS.byte byte

section

variable (hS : S.Secrecy safe) {key : Bytes β 32} {input : List β}

include hS

omit [DecidableEq β] in
/-- A digest determines whether what was hashed is safe. -/
theorem Sodium.Secrecy.of_within_hash {msg key : List β} (h : Within safe (S.generichash 32 msg key).toList) :
    Within safe msg ∧ Within safe key := by
  obtain ⟨x, hx⟩ := exists_mem_toList (S.generichash 32 msg key)
  exact hS.of_hash hx (h x hx)

omit [DecidableEq β] in
theorem Sodium.Secrecy.of_vpnKdf1 (h : Within safe (vpnKdf1 S key input).toList) :
    Within safe key.toList ∧ Within safe input :=
  (hS.of_within_hash (hS.of_within_hash h).2).symm

omit [DecidableEq β] in
/-- An octet of a derived key is safe only if everything it was derived from is. -/
theorem Sodium.Secrecy.of_vpnKdf2 {x : β}
    (hx : x ∈ (vpnKdf2 S key input).1.toList ∨ x ∈ (vpnKdf2 S key input).2.toList) (hsafe : x ∈ safe) :
    Within safe key.toList ∧ Within safe input := by
  rcases hx with hx | hx
  · exact (hS.of_within_hash (hS.of_hash hx hsafe).2).symm
  · exact (hS.of_within_hash (hS.of_hash hx hsafe).2).symm

omit [DecidableEq β] in
/-- So a transport key depends on the secret the two ephemeral keys share. -/
theorem Sodium.Secrecy.of_transportKeys {chainingKey Er z₃ z₄ : Bytes β 32} {x : β}
    (hx : x ∈ (transportKeys S chainingKey Er z₃ z₄).1.toList ∨ x ∈ (transportKeys S chainingKey Er z₃ z₄).2.toList)
    (hsafe : x ∈ safe) : Within safe z₃.toList := by
  have hkey : Within safe (responseKeys S chainingKey Er z₃ z₄).1.toList := (hS.of_vpnKdf2 hx hsafe).1
  obtain ⟨y, hy⟩ := exists_mem_toList (responseKeys S chainingKey Er z₃ z₄).1
  exact (hS.of_vpnKdf1 (hS.of_vpnKdf2 (.inl hy) (hkey y hy)).1).2

omit [DecidableEq β] in
theorem Sodium.Secrecy.not_within_dh {a b z : Bytes β 32} (hz : S.scalarmult a (S.scalarmultBase b) = some z)
    (ha : ¬ Within safe a.toList) (hb : ¬ Within safe b.toList) : ¬ Within safe z.toList := by
  intro h
  obtain ⟨x, hx⟩ := exists_mem_toList z
  rcases hS.of_dh hz hx (h x hx) with h | h
  · exact ha h
  · exact hb h

/-- **The transport keys of a run lie outside**, on both sides, when its two ephemeral private keys do. -/
theorem HonestRun.keys_outside (run : HonestRun S) (hei : ¬ Within safe run.initiatorEphemeral.toList)
    (her : ¬ Within safe run.responderEphemeral.toList) {x : β}
    (hx : (x ∈ run.response.sendKey.toList ∨ x ∈ run.response.recvKey.toList) ∨
      (x ∈ run.finished.sendKey.toList ∨ x ∈ run.finished.recvKey.toList)) : x ∉ safe := by
  intro hsafe
  obtain ⟨z₁, z₂, -, hmsg, -, hephemeral⟩ := run.message
  obtain ⟨-, z₃, z₄, h₃, -, hpacket, hsend, hrecv⟩ := handshakeCreateResponse_eq_ok.mp run.responds
  rcases hx with hx | hx
  · rw [hmsg] at h₃
    rw [hsend, hrecv] at hx
    exact hS.not_within_dh h₃ her hei (hS.of_transportKeys hx hsafe)
  · obtain ⟨msg, hparse, -, z₃', z₄', h₃', -, -, hfinished⟩ := handshakeConsumeResponse_eq_ok.mp run.finishes
    rw [hpacket, packetParseHandshakeResp_wire] at hparse
    obtain rfl := Except.ok.inj hparse
    rw [hephemeral] at h₃'
    rw [hfinished] at hx
    exact hS.not_within_dh h₃' hei her (hS.of_transportKeys hx.symm hsafe)

end

end VpnTunnel
