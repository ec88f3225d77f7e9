import VpnTunnel.ForwardSecrecy
import VpnTunnel.PacketSizes
import VpnTunnel.TranscriptAgreement

/-!
# A hostile network

The daemon and the hosts that initiate sessions with it talk over a network that belongs to the attacker:
it sees every datagram, and decides which datagrams arrive, what is in them, and in which order. This
module is the model of that: who can do what (`Move`), and what is true of every state the moves lead to
(`Secure`).

## The model

Octets are the terms of `Symbol`, with the private keys of some hosts hidden. The attacker computes with
the functions of the library (`Attack`), and delivers to the daemon, as a datagram, any string of octets
it knows. The daemon is the event loop, whatever its peers are; private keys of peers that are not hidden
belong to the attacker. An initiator runs `handshake_create_initiation`, against any public key, and gives
what the attacker delivers to `handshake_consume_response`; with the keys it then has it seals packets.
Packets of the hosts themselves are of bytes. No ephemeral key has to be secret, or used once.

## The argument

A term is `Known` when the attacker can have it: it can be computed from what is not hidden, or it is an
octet of a sealed string that stood in a datagram. Sealed strings enter in datagrams of honest hosts, or
under a key that is known. So a sealed string whose key is not known comes from a datagram of an honest
host, and every such datagram is an initiation, a response, or data (`Network.Datagram`).

## What is proved

* `known_closed` — what the attacker computes is known.
* `Secure.move` — a move keeps the invariant.
* `Secure.reachable` — so it holds however the moves are interleaved.
-/

namespace VpnTunnel

open Octets VpnTunnel.Symbol

/-! ### What the attacker can have -/

/-- A term the attacker can have without the private keys whose names are hidden, when the octets `emitted`
have stood in datagrams of other hosts. -/
def Symbol.Known (hidden : Set ℕ) (emitted : Set Symbol) : Symbol → Prop
  | byte _ => True
  | priv name _ => name ∉ hidden
  | pub _ _ => True
  | secret a b _ => a.Known hidden emitted ∨ b.Known hidden emitted
  | digest _ msg key _ => msg.Known hidden emitted ∧ key.Known hidden emitted
  | sealed key nonce ad m i =>
    (key.Known hidden emitted ∧ m.Known hidden emitted) ∨ sealed key nonce ad m i ∈ emitted
  | nil => True
  | cons x xs => x.Known hidden emitted ∧ xs.Known hidden emitted

/-- The terms the attacker can have. -/
def knownSymbols (hidden : Set ℕ) (emitted : Set Symbol) : Set Symbol := {x | x.Known hidden emitted}

/-- What is sealed in an octet that was emitted is known itself. -/
def PlainKnown (hidden : Set ℕ) (emitted : Set Symbol) : Prop :=
  ∀ key nonce ad m i, sealed key nonce ad m i ∈ emitted → m.Known hidden emitted

section

variable {hidden : Set ℕ} {emitted emitted' : Set Symbol}

theorem Symbol.Known.mono (hsub : emitted ⊆ emitted') {x : Symbol} (h : x.Known hidden emitted) :
    x.Known hidden emitted' := by
  induction x with
  | byte _ => trivial
  | priv _ _ => exact h
  | pub _ _ _ => trivial
  | secret _ _ _ iha ihb => exact h.imp iha ihb
  | digest _ _ _ _ ihm ihk => exact ⟨ihm h.1, ihk h.2⟩
  | sealed _ _ _ _ _ ihk _ _ ihm => exact h.imp (fun h => ⟨ihk h.1, ihm h.2⟩) fun h => hsub h
  | nil => trivial
  | cons _ _ ihx ihxs => exact ⟨ihx h.1, ihxs h.2⟩

/-- What is known can be known without the hidden keys, in the sense of secrecy. -/
theorem Symbol.Known.safe (hplain : PlainKnown hidden emitted) {x : Symbol} (h : x.Known hidden emitted) :
    x.Safe hidden := by
  induction x with
  | byte _ => trivial
  | priv _ _ => exact h
  | pub _ _ _ => trivial
  | secret _ _ _ iha ihb => exact h.imp iha ihb
  | digest _ _ _ _ ihm ihk => exact ⟨ihm h.1, ihk h.2⟩
  | sealed _ _ _ _ _ _ _ _ ihm =>
    rcases h with h | h
    · exact fun _ => ihm h.2
    · exact fun _ => ihm (hplain _ _ _ _ _ h)
  | nil => trivial
  | cons _ _ ihx ihxs => exact ⟨ihx h.1, ihxs h.2⟩

/-- A string is known when its octets are. -/
theorem known_ofOctets {l : List Symbol} :
    (ofOctets l).Known hidden emitted ↔ Within (knownSymbols hidden emitted) l := by
  induction l with
  | nil => exact ⟨fun _ => within_nil, fun _ => trivial⟩
  | cons x xs ih =>
    rw [ofOctets, Symbol.Known, ih]
    exact List.forall_mem_cons.symm

theorem within_known_take {n : ℕ} {f : ℕ → Symbol} (h : ∀ i, (f i).Known hidden emitted) :
    Within (knownSymbols hidden emitted) (take n f).toList := by
  intro x hx
  obtain ⟨i, -, rfl⟩ := mem_take.mp hx
  exact h i

/-- The secret of an exchange is a secret of two strings: the private key, and one whose public key was
given. -/
theorem symbolicSodium_scalarmult_eq_some {a p z : Bytes Symbol 32} (h : symbolicSodium.scalarmult a p = some z) :
    ∃ b, p = take 32 (pub b) ∧ z = shared (ofOctets a.toList) b := by
  simp only [symbolicSodium] at h
  split at h
  · next b _ _ =>
    split at h
    · next hp => exact ⟨b, hp, (Option.some.inj h).symm⟩
    · cases h
  · cases h

/-- **What the attacker computes from what is known is known.** -/
theorem known_closed (hplain : PlainKnown hidden emitted) :
    Deduction.Closed (Attack symbolicSodium) (knownSymbols hidden emitted) := by
  intro known x hknown hx
  have hwithin : ∀ {l : List Symbol}, Within known l → (ofOctets l).Known hidden emitted :=
    fun h => known_ofOctets.mpr fun y hy => hknown (h y hy)
  cases hx with
  | byte b => exact trivial
  | hash hmsg hkey hy =>
    obtain ⟨i, -, rfl⟩ := mem_take.mp hy
    exact ⟨hwithin hmsg, hwithin hkey⟩
  | encrypt hkey _ _ hm hy =>
    rcases hy with hy | hy
    · obtain ⟨i, -, rfl⟩ := mem_take.mp hy
      exact .inl ⟨hwithin hkey, hwithin hm⟩
    · obtain ⟨i, -, rfl⟩ := mem_take.mp hy
      exact .inl ⟨hwithin hkey, hwithin hm⟩
  | @decrypt n key nonce ad c m tag _ hkey _ _ _ htag hopens hy =>
    -- the first octet of the tag holds the plaintext
    have henc : encrypt key nonce ad m = (c, tag) := of_decide_eq_true (Option.filter_eq_some_iff.mp hopens).2
    have hoctet : sealed (ofOctets key.toList) (ofOctets nonce.toList) (ofOctets ad) (ofOctets m.toList) n ∈
        tag.toList := by
      rw [← show (encrypt key nonce ad m).2 = tag from congrArg Prod.snd henc]
      exact mem_take.mpr ⟨0, by decide, rfl⟩
    have hm : (ofOctets m.toList).Known hidden emitted := by
      rcases hknown (htag _ hoctet) with h | h
      · exact h.2
      · exact hplain _ _ _ _ _ h
    exact known_ofOctets.mp hm x hy
  | pub _ hy =>
    obtain ⟨i, -, rfl⟩ := mem_take.mp hy
    exact trivial
  | dh ha _ hz hy =>
    obtain ⟨b, -, rfl⟩ := symbolicSodium_scalarmult_eq_some hz
    obtain ⟨i, -, rfl⟩ := mem_take.mp hy
    split
    · exact .inl (hwithin ha)
    · exact .inr (hwithin ha)

end

/-! ### Sealed octets of a datagram -/

section

variable {key nonce ad m : Symbol} {i : ℕ}

/-- An octet of a ciphertext or its tag says what was sealed. -/
theorem sealed_mem_encrypt {n : ℕ} {k : Bytes Symbol 32} {c : Bytes Symbol 12} {a : List Symbol} {p : Bytes Symbol n}
    (h : sealed key nonce ad m i ∈ (encrypt k c a p).1.toList ∨ sealed key nonce ad m i ∈ (encrypt k c a p).2.toList) :
    key = ofOctets k.toList ∧ nonce = ofOctets c.toList ∧ ad = ofOctets a ∧ m = ofOctets p.toList := by
  rcases h with h | h <;>
  · obtain ⟨j, -, heq⟩ := mem_take.mp h
    simp only [sealed.injEq] at heq
    exact ⟨heq.1, heq.2.1, heq.2.2.1, heq.2.2.2.1⟩

theorem sealed_mem_sealField {n k : ℕ} {p : Bytes Symbol n} {hash sealKey : Bytes Symbol 32} (hk : n + 16 = k)
    (h : sealed key nonce ad m i ∈ (sealField symbolicSodium p hash sealKey hk).toList) :
    key = ofOctets sealKey.toList ∧ ad = ofOctets hash.toList ∧ m = ofOctets p.toList := by
  rw [sealField, toList_join, List.mem_append] at h
  obtain ⟨hkey, -, had, hm⟩ := sealed_mem_encrypt h
  exact ⟨hkey, had, hm⟩

/-- The first octet of the tag of a sealed field. -/
theorem tag_mem_sealField {n k : ℕ} (p : Bytes Symbol n) (hash sealKey : Bytes Symbol 32) (hk : n + 16 = k) :
    sealed (ofOctets sealKey.toList) (ofOctets (vpnCryptoFormatNonce 0 : Bytes Symbol 12).toList)
      (ofOctets hash.toList) (ofOctets p.toList) n ∈ (sealField symbolicSodium p hash sealKey hk).toList := by
  rw [sealField, toList_join, List.mem_append]
  exact .inr (mem_take.mpr ⟨0, by decide, rfl⟩)

theorem sealed_notMem_leWriteFrom {w : ℕ} (v : BitVec w) (off n : ℕ) :
    sealed key nonce ad m i ∉ (leWriteFrom v off n : List Symbol) := by
  induction n generalizing off with
  | zero => exact List.not_mem_nil
  | succ n ih =>
    rw [leWriteFrom, List.mem_cons, not_or]
    refine ⟨fun h => ?_, ih (off + 1)⟩
    cases h

theorem sealed_notMem_zeroBytes (n : ℕ) : sealed key nonce ad m i ∉ (zeroBytes n : Bytes Symbol n).toList := by
  intro h
  cases List.eq_of_mem_replicate h

theorem sealed_notMem_wireHeader {b : BitVec 8} : sealed key nonce ad m i ∉ wireHeader (byte b) := by
  simp [wireHeader, ofByte]

theorem sealed_notMem_pub {a : Bytes Symbol 32} :
    sealed key nonce ad m i ∉ (symbolicSodium.scalarmultBase a).toList := by
  intro h
  obtain ⟨j, -, heq⟩ := mem_take.mp h
  cases heq

theorem sealed_notMem_hash {outLen : ℕ} {msg k : List Symbol} :
    sealed key nonce ad m i ∉ (symbolicSodium.generichash outLen msg k).toList := by
  intro h
  obtain ⟨j, -, heq⟩ := mem_take.mp h
  cases heq

/-- The sealed octets of an initiation are those of the static key and those of the timestamp. -/
theorem sealed_mem_initiationMsg {Si Sr z₁ z₂ : Bytes Symbol 32} {ei : Bytes Symbol 32} {idx : BitVec 32}
    {ts : Bytes Symbol 12}
    (h : sealed key nonce ad m i ∈
      (initiationMsg symbolicSodium Si Sr idx (symbolicSodium.scalarmultBase ei) ts z₁ z₂).wire) :
    sealed key nonce ad m i ∈
        (initiationMsg symbolicSodium Si Sr idx (symbolicSodium.scalarmultBase ei) ts z₁ z₂).encryptedStatic.toList ∨
      sealed key nonce ad m i ∈ (initiationMsg symbolicSodium Si Sr idx (symbolicSodium.scalarmultBase ei) ts z₁
        z₂).encryptedTimestamp.toList := by
  simp only [PacketHandshakeInit.wire, List.mem_append] at h
  rcases h with h | h | h | h | h | h | h
  · exact absurd h sealed_notMem_wireHeader
  · exact absurd h (sealed_notMem_leWriteFrom _ _ _)
  · exact absurd h sealed_notMem_pub
  · exact .inl h
  · exact .inr h
  · exact absurd h sealed_notMem_hash
  · exact absurd h (sealed_notMem_zeroBytes 16)

/-- Those of a response are those of its tag. -/
theorem sealed_mem_responseMsg {K ck hash z₃ z₄ : Bytes Symbol 32} {er : Bytes Symbol 32} {myIdx theirIdx : BitVec 32}
    (h : sealed key nonce ad m i ∈
      (responseMsg symbolicSodium K myIdx theirIdx ck hash (symbolicSodium.scalarmultBase er) z₃ z₄).wire) :
    sealed key nonce ad m i ∈ (responseTag symbolicSodium ck hash (symbolicSodium.scalarmultBase er) z₃ z₄).toList := by
  simp only [PacketHandshakeResp.wire, List.mem_append] at h
  rcases h with h | h | h | h | h | h | h
  · exact absurd h sealed_notMem_wireHeader
  · exact absurd h (sealed_notMem_leWriteFrom _ _ _)
  · exact absurd h (sealed_notMem_leWriteFrom _ _ _)
  · exact absurd h sealed_notMem_pub
  · exact h
  · exact absurd h sealed_notMem_hash
  · exact absurd h (sealed_notMem_zeroBytes 16)

/-- The type of a data packet is a byte. -/
theorem exists_wireType_eq (msg : PacketData Symbol) : ∃ b, msg.wireType = byte b := by
  unfold PacketData.wireType
  split
  · exact ⟨0x04#8, rfl⟩
  · exact ⟨0x03#8, rfl⟩

/-- Those of a data packet are those of its ciphertext and its tag. -/
theorem sealed_mem_sealedPacket {s : Session Symbol} {b : List Symbol}
    (h : sealed key nonce ad m i ∈ (sealedPacket symbolicSodium s b).wire) :
    key = ofOctets s.sendKey.toList ∧
      nonce = ofOctets (vpnCryptoFormatNonce s.sendingCounter : Bytes Symbol 12).toList ∧ ad = nil ∧
      m = ofOctets b := by
  simp only [PacketData.wire, List.mem_append] at h
  obtain ⟨type, htype⟩ := exists_wireType_eq (sealedPacket symbolicSodium s b)
  rw [htype] at h
  rcases h with h | h | h | h
  · exact absurd h sealed_notMem_wireHeader
  · exact absurd h (sealed_notMem_leWriteFrom _ _ _)
  · exact absurd h (sealed_notMem_leWriteFrom _ _ _)
  · have hsealed := sealed_mem_encrypt (p := ofList b) h
    rw [toList_ofList] at hsealed
    exact hsealed

end

/-! ### What may be emitted -/

/-- A datagram that tells the attacker nothing but itself: its octets are known once it is out, and what is
sealed in it was known anyway. -/
structure Emittable (hidden : Set ℕ) (b : List Symbol) : Prop where
  /-- Its octets are known once they are emitted. -/
  known : ∀ emitted : Set Symbol, (∀ x ∈ b, x ∈ emitted) → Within (knownSymbols hidden emitted) b
  /-- What is sealed in it is known. -/
  plain : ∀ key nonce ad m i, sealed key nonce ad m i ∈ b → m.Known hidden ∅

section

variable {hidden : Set ℕ} {emitted : Set Symbol}

theorem known_of_mem_sealField {n k : ℕ} {p : Bytes Symbol n} {hash sealKey : Bytes Symbol 32} (hk : n + 16 = k)
    (hsub : ∀ x ∈ (sealField symbolicSodium p hash sealKey hk).toList, x ∈ emitted) :
    Within (knownSymbols hidden emitted) (sealField symbolicSodium p hash sealKey hk).toList := by
  intro x hx
  have hemitted := hsub x hx
  rw [sealField, toList_join, List.mem_append] at hx
  rcases hx with hx | hx <;>
  · obtain ⟨i, -, rfl⟩ := mem_take.mp hx
    exact .inr hemitted

theorem within_known_leWriteFrom {w : ℕ} (v : BitVec w) (off n : ℕ) :
    Within (knownSymbols hidden emitted) (leWriteFrom v off n) := by
  induction n generalizing off with
  | zero => exact within_nil
  | succ n ih => exact List.forall_mem_cons.mpr ⟨trivial, ih (off + 1)⟩

theorem within_known_zeroBytes (n : ℕ) :
    Within (knownSymbols hidden emitted) (zeroBytes n : Bytes Symbol n).toList := by
  intro x hx
  have heq : x = ofByte 0 := List.eq_of_mem_replicate hx
  rw [heq]
  trivial

theorem within_known_wireHeader {b : BitVec 8} : Within (knownSymbols hidden emitted) (wireHeader (byte b)) := by
  intro x hx
  simp only [wireHeader, List.mem_cons, List.not_mem_nil, or_false] at hx
  rcases hx with rfl | rfl | rfl | rfl <;> trivial

theorem within_known_bytes (payload : List (BitVec 8)) : Within (knownSymbols hidden emitted) (payload.map ofByte) := by
  intro x hx
  obtain ⟨b, -, rfl⟩ := List.mem_map.mp hx
  trivial

theorem within_known_pub (a : Symbol) : Within (knownSymbols hidden emitted) (take 32 (pub a)).toList :=
  within_known_take fun _ => trivial

/-- A MAC under a hashed public key. -/
theorem within_known_mac1 {a : Symbol} {l : List Symbol} (hl : Within (knownSymbols hidden emitted) l) :
    Within (knownSymbols hidden emitted)
      (vpnCryptoMac16 symbolicSodium (vpnCryptoHash symbolicSodium (take 32 (pub a)).toList) l).toList := by
  refine within_known_take fun _ => ⟨known_ofOctets.mpr hl, known_ofOctets.mpr (within_known_take fun _ => ?_)⟩
  exact ⟨known_ofOctets.mpr (within_known_pub a), trivial⟩

/-- An initiation of a host may be emitted. -/
theorem emittable_initiation (run : InitiationRun symbolicSodium)
    (hpub : run.myPub = symbolicSodium.scalarmultBase run.myPriv) : Emittable hidden run.packet := by
  obtain ⟨-, z₁, z₂, h₁, -, msg, hmsg, hwire, -⟩ := handshakeCreateInitiation_eq_ok.mp run.created
  obtain ⟨a, htheir, -⟩ := symbolicSodium_scalarmult_eq_some h₁
  have hstatic : ∀ x ∈ msg.encryptedStatic.toList, x ∈ msg.wire := fun x hx => by
    simp only [PacketHandshakeInit.wire, List.mem_append]
    tauto
  have hstamp : ∀ x ∈ msg.encryptedTimestamp.toList, x ∈ msg.wire := fun x hx => by
    simp only [PacketHandshakeInit.wire, List.mem_append]
    tauto
  rw [hwire]
  constructor
  · intro emitted hemitted
    have hes : Within (knownSymbols hidden emitted) msg.encryptedStatic.toList := by
      rw [hmsg] at hstatic hemitted ⊢
      exact known_of_mem_sealField rfl fun x hx => hemitted x (hstatic x hx)
    have het : Within (knownSymbols hidden emitted) msg.encryptedTimestamp.toList := by
      rw [hmsg] at hstamp hemitted ⊢
      exact known_of_mem_sealField rfl fun x hx => hemitted x (hstamp x hx)
    have heph : Within (knownSymbols hidden emitted) msg.unencryptedEphemeral.toList := by
      rw [hmsg]
      exact within_known_pub _
    have hmac : msg.mac1 = vpnCryptoMac16 symbolicSodium (vpnCryptoHash symbolicSodium (take 32 (pub a)).toList)
        (msg.unencryptedEphemeral.toList ++ msg.encryptedStatic.toList ++ msg.encryptedTimestamp.toList) := by
      rw [hmsg, htheir]
      rfl
    have hmac2 : msg.mac2 = zeroBytes 16 := by rw [hmsg]; rfl
    rw [PacketHandshakeInit.wire, hmac, hmac2]
    simp only [within_append]
    refine ⟨within_known_wireHeader, within_known_leWriteFrom _ _ _, heph, hes, het, within_known_mac1 ?_,
      within_known_zeroBytes 16⟩
    simp only [within_append]
    exact ⟨⟨heph, hes⟩, het⟩
  · intro key nonce ad m i h
    rw [hmsg] at h
    rcases sealed_mem_initiationMsg h with h | h
    · rw [(sealed_mem_sealField rfl h).2.2, hpub]
      exact known_ofOctets.mpr (within_known_pub _)
    · rw [(sealed_mem_sealField rfl h).2.2, timestampBytes]
      refine known_ofOctets.mpr ?_
      rw [toList_join, within_append]
      exact ⟨within_known_leWriteFrom _ _ _, within_known_leWriteFrom _ _ _⟩

/-- So may a response. -/
theorem emittable_response (run : ResponseRun symbolicSodium) : Emittable hidden run.response.packet := by
  obtain ⟨-, z₃, z₄, -, h₄, hwire, -⟩ := handshakeCreateResponse_eq_ok.mp run.created
  obtain ⟨a, htheir, -⟩ := symbolicSodium_scalarmult_eq_some h₄
  rw [hwire]
  constructor
  · intro emitted hemitted
    have htag : ∀ x ∈ (responseTag symbolicSodium run.chainingKey run.hash (symbolicSodium.scalarmultBase run.ephemeral)
        z₃ z₄).toList, x ∈ (responseMsg symbolicSodium run.theirStatic run.myIndex run.theirIndex run.chainingKey
          run.hash (symbolicSodium.scalarmultBase run.ephemeral) z₃ z₄).wire := fun x hx => by
      simp only [PacketHandshakeResp.wire, responseMsg, List.mem_append]
      tauto
    have hknown : Within (knownSymbols hidden emitted) _ :=
      known_of_mem_sealField rfl fun x hx => hemitted x (htag x hx)
    rw [PacketHandshakeResp.wire]
    simp only [within_append]
    refine ⟨within_known_wireHeader, within_known_leWriteFrom _ _ _, within_known_leWriteFrom _ _ _,
      within_known_pub _, hknown, ?_, within_known_zeroBytes 16⟩
    rw [responseMsg, htheir]
    refine within_known_mac1 ?_
    simp only [within_append]
    exact ⟨⟨within_known_pub _, hknown⟩, within_known_zeroBytes 4⟩
  · intro key nonce ad m i h
    rw [(sealed_mem_sealField rfl (sealed_mem_responseMsg h)).2.2]
    exact trivial

/-- So may data, under any key. -/
theorem emittable_sealedPacket (s : Session Symbol) (payload : List (BitVec 8)) :
    Emittable hidden (sealedPacket symbolicSodium s (payload.map ofByte)).wire := by
  constructor
  · intro emitted hemitted x hx
    have hx' := hemitted x hx
    simp only [PacketData.wire, List.mem_append] at hx
    rcases hx with hx | hx | hx | hx | hx
    · obtain ⟨type, htype⟩ := exists_wireType_eq (sealedPacket symbolicSodium s (payload.map ofByte))
      rw [htype] at hx
      exact within_known_wireHeader x hx
    · exact within_known_leWriteFrom _ _ _ x hx
    · exact within_known_leWriteFrom _ _ _ x hx
    · obtain ⟨i, -, rfl⟩ := mem_take.mp hx
      exact .inr hx'
    · obtain ⟨i, -, rfl⟩ := mem_take.mp hx
      exact .inr hx'
  · intro key nonce ad m i h
    rw [(sealed_mem_sealedPacket h).2.2.2]
    exact known_ofOctets.mpr (within_known_bytes payload)

end

/-! ### What the daemon sends -/

section

variable {β : Type} [Octet β] [DecidableEq β] {S : Sodium β} {d d' : Daemon β} {ev : Event β}
  {effects : List (Effect β)}

/-- The run of `handshake_create_response` for an accepted initiation. -/
def Daemon.responseRun (d : Daemon β) {init : ConsumedInitiation d.table} {ephemeral : Bytes β 32}
    {resp : CreatedResponse β} (h : d.respond S init ephemeral = .ok resp) : ResponseRun S where
  maxLen := 92
  theirEphemeral := init.parsed.unencryptedEphemeral
  theirStatic := (d.table.peers.get init.peer).publicKey
  myIndex := d.table.nextLocalIndex
  theirIndex := init.parsed.senderIndex
  chainingKey := init.chainingKey
  hash := init.hash
  ephemeral := ephemeral
  response := resp
  created := h

omit [Octet β] [DecidableEq β] in
theorem PeerTable.hasKey_of_config {t t' : PeerTable β} (h : t'.peers.map Peer.config = t.peers.map Peer.config)
    {i : ℕ} {key : Bytes β 32} (hkey : ∃ p, t.peers[i]? = some p ∧ p.publicKey = key) :
    ∃ p, t'.peers[i]? = some p ∧ p.publicKey = key := by
  obtain ⟨p, hp, rfl⟩ := hkey
  have hi : (t'.peers.map Peer.config)[i]? = some p.config := by rw [h, List.getElem?_map, hp, Option.map_some]
  rw [List.getElem?_map, Option.map_eq_some_iff] at hi
  obtain ⟨p', hp', hcfg⟩ := hi
  exact ⟨p', hp', congrArg Prod.fst hcfg⟩

/-- A step installs a session only for an initiation it accepts. -/
theorem StepCase.install_origin (h : StepCase S d ev d' effects) {i : ℕ} {s : Session β}
    (hs : .install i s ∈ effects) : ∃ r init resp, ev = .udp r ∧ InitiationAccepted S d (r.datagram.take 2048) init ∧
      d.respond S init r.ephemeral = .ok resp ∧ i = init.peer ∧ s = d.newSession init resp r.now := by
  cases h with
  | idle => exact absurd hs List.not_mem_nil
  | data h => cases (mem_deliver.mp hs).1
  | @initiation r init resp h hresp =>
    simp only [List.mem_cons, reduceCtorEq, Effect.install.injEq, List.not_mem_nil, false_or, or_false] at hs
    exact ⟨r, init, resp, rfl, h, hresp, hs.1, hs.2⟩
  | unanswered _ _ => simp at hs
  | outbound h =>
    obtain ⟨dest, pkt, heq⟩ := eq_send_of_mem_sendSealed ((List.mem_cons.mp hs).resolve_left nofun)
    cases heq

/-- A step sends the response to an initiation it accepts, or a packet it has sealed in a session in use. -/
theorem StepCase.send_origin (h : StepCase S d ev d' effects) {dest : Endpoint} {b : List β}
    (hb : .send dest b ∈ effects) :
    (∃ r init resp, ev = .udp r ∧ InitiationAccepted S d (r.datagram.take 2048) init ∧
      d.respond S init r.ephemeral = .ok resp ∧ .install init.peer (d.newSession init resp r.now) ∈ effects ∧
      dest = r.src ∧ b = resp.packet) ∨
    ∃ packet i, ev = .tun packet ∧ Routed d (packet.take 2048) i ∧ dest = (d.table.peers.get i).endpoint ∧
      .encrypt (d.table.peers.get i).currentSession.sendKey
        (vpnCryptoFormatNonce (d.table.peers.get i).currentSession.sendingCounter) (packet.take 2048) ∈ effects ∧
      b = (sealedPacket S (d.table.peers.get i).currentSession (packet.take 2048)).wire := by
  cases h with
  | idle => exact absurd hb List.not_mem_nil
  | data h => cases (mem_deliver.mp hb).1
  | @initiation r init resp h hresp =>
    simp only [List.mem_cons, reduceCtorEq, Effect.send.injEq, List.not_mem_nil, false_or, or_false] at hb
    exact .inl ⟨r, init, resp, rfl, h, hresp, by simp, hb.1, hb.2⟩
  | unanswered _ _ => simp at hb
  | @outbound packet i h =>
    rw [List.mem_cons] at hb
    obtain ⟨-, hdest, hwire⟩ := mem_sendSealed.mp (hb.resolve_left nofun)
    exact .inr ⟨packet, i, rfl, h, hdest, List.mem_cons_self, hwire⟩

/-- A session in use after a step was in use with its keys, or was installed by the step. -/
theorem StepCase.established_keys (h : StepCase S d ev d' effects) {j : ℕ} {slot : Slot} {s : Session β}
    (hs : d'.table.Established j slot s) :
    (∃ slot' s₀, d.table.Established j slot' s₀ ∧ s₀.sendKey = s.sendKey ∧ s₀.recvKey = s.recvKey) ∨
      .install j s ∈ effects := by
  cases h with
  | idle => exact .inl ⟨slot, s, hs, rfl, rfl⟩
  | data h =>
    rcases PeerTable.established_update_slot (fun _ hne => Peer.session_received_of_ne hne) hs with
      ⟨-, hs⟩ | ⟨rfl, rfl, rfl⟩
    · exact .inl ⟨slot, s, hs, rfl, rfl⟩
    · refine .inl ⟨_, _, PeerTable.established_get _ (peerFindByIndex_eq_some h.find).1, ?_⟩
      rw [Peer.session_received]
      exact ⟨rfl, rfl⟩
  | initiation _ _ =>
    rcases Daemon.established_rekeyed hs with ⟨rfl, -, rfl⟩ | ⟨rfl, -, slot', hs⟩ | ⟨-, hs⟩
    · exact .inr (by simp)
    · exact .inl ⟨slot', s, hs, rfl, rfl⟩
    · exact .inl ⟨slot, s, hs, rfl, rfl⟩
  | unanswered _ _ => exact .inl ⟨slot, s, hs, rfl, rfl⟩
  | outbound h =>
    rcases PeerTable.established_update_slot (fun _ hne => Peer.session_counted_of_ne hne) hs with
      ⟨-, hs⟩ | ⟨rfl, rfl, rfl⟩
    · exact .inl ⟨slot, s, hs, rfl, rfl⟩
    · exact .inl ⟨_, _, PeerTable.established_get .current h.established, rfl, rfl⟩

end

/-! ### The network -/

/-- The daemon, the hosts that initiate sessions with it or with others, and the attacker. -/
structure Network where
  /-- The daemon. -/
  daemon : Daemon Symbol
  /-- What it has done. -/
  trace : List (Effect Symbol)
  /-- The initiations created. -/
  initiations : List (InitiationRun symbolicSodium)
  /-- The responses accepted, each with the run whose initiation it answers. -/
  finished : List (InitiationRun symbolicSodium × ConsumedResponse Symbol)
  /-- The packets sealed by initiators, each with the session as it was then. -/
  sent : List (Session Symbol × List (BitVec 8))
  /-- What the attacker has. -/
  known : Set Symbol

/-- The daemon reacts to an event, and the attacker sees what it sends. -/
noncomputable def Network.react (n : Network) (ev : Event Symbol) : Network :=
  { n with
    daemon := (step symbolicSodium n.daemon ev).1
    trace := n.trace ++ (step symbolicSodium n.daemon ev).2
    known := n.known ∪ {x | ∃ dest b, .send dest b ∈ (step symbolicSodium n.daemon ev).2 ∧ x ∈ b} }

/-- A run of an initiator whose private key is hidden. -/
def InitiationRun.Honest (hidden : Set ℕ) (run : InitiationRun symbolicSodium) : Prop :=
  (∃ si ∈ hidden, run.myPriv = privateKey si) ∧ run.myPub = symbolicSodium.scalarmultBase run.myPriv

/-- What can happen next. -/
inductive Move (hidden : Set ℕ) (n : Network) : Network → Prop
  /-- The attacker computes. -/
  | learn {x : Symbol} (h : Attack symbolicSodium n.known x) : Move hidden n { n with known := insert x n.known }
  /-- The attacker delivers a datagram to the daemon. -/
  | deliver {r : Recv Symbol} (h : Within n.known r.datagram) : Move hidden n (n.react (.udp r))
  /-- The daemon reads a packet from its TUN device. -/
  | read (payload : List (BitVec 8)) : Move hidden n (n.react (.tun (payload.map ofByte)))
  /-- An initiator creates an initiation. -/
  | initiate {run : InitiationRun symbolicSodium} (h : run.Honest hidden) :
      Move hidden n { n with initiations := run :: n.initiations, known := n.known ∪ {x | x ∈ run.packet} }
  /-- The attacker delivers a datagram to an initiator, which takes it for a response. -/
  | finish {run : InitiationRun symbolicSodium} (hrun : run ∈ n.initiations) {b : List Symbol}
      (hb : Within n.known b) {fin : ConsumedResponse Symbol}
      (h : handshakeConsumeResponse symbolicSodium b run.myPriv run.state = .ok fin) :
      Move hidden n { n with finished := (run, fin) :: n.finished }
  /-- An initiator seals a packet. -/
  | send {run : InitiationRun symbolicSodium} {fin : ConsumedResponse Symbol} (h : (run, fin) ∈ n.finished)
      {s : Session Symbol} (hkey : s.sendKey = fin.sendKey) (payload : List (BitVec 8)) :
      Move hidden n
        { n with
          sent := (s, payload) :: n.sent
          known := n.known ∪ {x | x ∈ (sealedPacket symbolicSodium s (payload.map ofByte)).wire} }

/-- The network at the start: nothing has happened, and the attacker has what is not hidden. -/
structure Network.Start (hidden : Set ℕ) (sr : ℕ) (n : Network) : Prop where
  /-- The private key of the daemon. -/
  priv : n.daemon.staticPriv = privateKey sr
  /-- Its public key. -/
  pub : n.daemon.staticPub = publicKey sr
  /-- It has no sessions. -/
  noSessions : n.daemon.table.NoSessions
  /-- Nothing was done. -/
  trace : n.trace = []
  /-- No initiation was created. -/
  initiations : n.initiations = []
  /-- None was answered. -/
  finished : n.finished = []
  /-- No packet was sealed. -/
  sent : n.sent = []
  /-- The attacker has what is not hidden. -/
  known : n.known ⊆ knownSymbols hidden ∅

/-- A state that some moves lead to. -/
def Network.Reachable (hidden : Set ℕ) : Network → Network → Prop := Relation.ReflTransGen (Move hidden)

/-! ### What holds in every state -/

/-- The session the daemon has installed for a peer and the response it has sent, for an initiation it has
accepted. -/
structure Answered (n : Network) (i : ℕ) (s : Session Symbol) (run : ResponseRun symbolicSodium) : Prop where
  /-- The session was installed. -/
  installed : .install i s ∈ n.trace
  /-- It has the keys of the run. -/
  keys : s.sendKey = run.response.sendKey ∧ s.recvKey = run.response.recvKey
  /-- The run was for the peer. -/
  owner : ∃ p, n.daemon.table.peers[i]? = some p ∧ p.publicKey = run.theirStatic
  /-- An initiation was accepted, and the run was for it. -/
  accepted : ∃ (datagram : List Symbol) (t : PeerTable Symbol) (init : ConsumedInitiation t),
    handshakeConsumeInitiation symbolicSodium datagram n.daemon.staticPriv n.daemon.staticPub t = .ok init ∧
      (t.peers.get init.peer).publicKey = run.theirStatic ∧
      init.parsed.unencryptedEphemeral = run.theirEphemeral ∧ init.chainingKey = run.chainingKey ∧
      init.hash = run.hash

/-- A packet the daemon has sealed under the send key of a session it has installed. -/
structure SealedByDaemon (n : Network) (s : Session Symbol) (payload : List (BitVec 8)) : Prop where
  /-- The session was installed, with this key. -/
  installed : ∃ i s₀, .install i s₀ ∈ n.trace ∧ s.sendKey = s₀.sendKey
  /-- The packet was sealed. -/
  encrypted : .encrypt s.sendKey (vpnCryptoFormatNonce s.sendingCounter) (payload.map ofByte) ∈ n.trace

/-- The datagrams of the daemon and the initiators. -/
inductive Network.Datagram (n : Network) : List Symbol → Prop
  /-- An initiation. -/
  | initiation {run : InitiationRun symbolicSodium} (h : run ∈ n.initiations) : n.Datagram run.packet
  /-- A response. -/
  | response {i : ℕ} {s : Session Symbol} {run : ResponseRun symbolicSodium} (h : Answered n i s run) :
      n.Datagram run.response.packet
  /-- A packet sealed by the daemon. -/
  | outbound {s : Session Symbol} {payload : List (BitVec 8)} (h : SealedByDaemon n s payload) :
      n.Datagram (sealedPacket symbolicSodium s (payload.map ofByte)).wire
  /-- A packet sealed by an initiator. -/
  | inbound {s : Session Symbol} {payload : List (BitVec 8)} (h : (s, payload) ∈ n.sent) :
      n.Datagram (sealedPacket symbolicSodium s (payload.map ofByte)).wire

/-- The octets of these datagrams. -/
def Network.emitted (n : Network) : Set Symbol := {x | ∃ b, n.Datagram b ∧ x ∈ b}

/-- The invariant. -/
structure Secure (hidden : Set ℕ) (sr : ℕ) (n : Network) : Prop where
  /-- The private key of the daemon. -/
  priv : n.daemon.staticPriv = privateKey sr
  /-- Its public key. -/
  pub : n.daemon.staticPub = publicKey sr
  /-- The initiators have hidden keys. -/
  honest : ∀ run ∈ n.initiations, run.Honest hidden
  /-- A response was accepted for an initiation created. -/
  finished : ∀ run fin, (run, fin) ∈ n.finished →
    run ∈ n.initiations ∧ ∃ b, handshakeConsumeResponse symbolicSodium b run.myPriv run.state = .ok fin
  /-- A packet was sealed with the key of a response accepted. -/
  sent : ∀ s payload, (s, payload) ∈ n.sent → ∃ run fin, (run, fin) ∈ n.finished ∧ s.sendKey = fin.sendKey
  /-- A session was installed for an initiation. -/
  installs : ∀ i s, .install i s ∈ n.trace → ∃ run, Answered n i s run
  /-- A session in use was installed. -/
  sessions : ∀ i slot s, n.daemon.table.Established i slot s →
    ∃ s₀, .install i s₀ ∈ n.trace ∧ s₀.sendKey = s.sendKey ∧ s₀.recvKey = s.recvKey
  /-- The attacker has what can be known from the datagrams. -/
  known : n.known ⊆ knownSymbols hidden n.emitted

section

variable {hidden : Set ℕ} {sr : ℕ} {n n' : Network}

/-- What happened stays: the later network has the keys, the configuration and all that was done. -/
structure Network.Extends (n' n : Network) : Prop where
  priv : n'.daemon.staticPriv = n.daemon.staticPriv
  pub : n'.daemon.staticPub = n.daemon.staticPub
  config : n'.daemon.table.peers.map Peer.config = n.daemon.table.peers.map Peer.config
  trace : n.trace ⊆ n'.trace
  initiations : n.initiations ⊆ n'.initiations
  sent : n.sent ⊆ n'.sent

theorem Answered.mono {i : ℕ} {s : Session Symbol} {run : ResponseRun symbolicSodium} (h : Answered n i s run)
    (hext : n'.Extends n) : Answered n' i s run where
  installed := hext.trace h.installed
  keys := h.keys
  owner := PeerTable.hasKey_of_config hext.config h.owner
  accepted := by
    rw [hext.priv, hext.pub]
    exact h.accepted

theorem Network.Datagram.mono {b : List Symbol} (h : n.Datagram b) (hext : n'.Extends n) : n'.Datagram b := by
  cases h with
  | initiation h => exact .initiation (hext.initiations h)
  | response h => exact .response (h.mono hext)
  | outbound h =>
    obtain ⟨⟨i, s₀, hmem, hkey⟩, henc⟩ := h
    exact .outbound ⟨⟨i, s₀, hext.trace hmem, hkey⟩, hext.trace henc⟩
  | inbound h => exact .inbound (hext.sent h)

theorem Network.emitted_mono (hext : n'.Extends n) : n.emitted ⊆ n'.emitted :=
  fun _ ⟨b, hb, hx⟩ => ⟨b, hb.mono hext, hx⟩

/-- Every datagram may be emitted. -/
theorem Network.Datagram.emittable {b : List Symbol} (h : n.Datagram b)
    (hhonest : ∀ run ∈ n.initiations, run.Honest hidden) : Emittable hidden b := by
  cases h with
  | initiation h => exact emittable_initiation _ (hhonest _ h).2
  | response h => exact emittable_response _
  | outbound _ => exact emittable_sealedPacket _ _
  | inbound _ => exact emittable_sealedPacket _ _

/-- What is sealed in them is known. -/
theorem plainKnown_emitted (hhonest : ∀ run ∈ n.initiations, run.Honest hidden) : PlainKnown hidden n.emitted :=
  fun key nonce ad m i ⟨_, hb, hx⟩ => ((hb.emittable hhonest).plain key nonce ad m i hx).mono (Set.empty_subset _)

/-- A datagram is known once it is emitted. -/
theorem Network.Datagram.within_known {b : List Symbol} (h : n.Datagram b)
    (hhonest : ∀ run ∈ n.initiations, run.Honest hidden) : Within (knownSymbols hidden n.emitted) b :=
  (h.emittable hhonest).known _ fun _ hx => ⟨b, h, hx⟩

theorem known_of_extends (hext : n'.Extends n) (h : n.known ⊆ knownSymbols hidden n.emitted) :
    n.known ⊆ knownSymbols hidden n'.emitted :=
  fun _ hx => (h hx).mono (Network.emitted_mono hext)

/-! ### A move keeps the invariant -/

/-- A move that leaves the daemon as it is. -/
theorem Secure.quiet (h : Secure hidden sr n) (hext : n'.Extends n) (hdaemon : n'.daemon = n.daemon)
    (htrace : n'.trace = n.trace) (hhonest : ∀ run ∈ n'.initiations, run.Honest hidden)
    (hfinished : ∀ run fin, (run, fin) ∈ n'.finished →
      run ∈ n'.initiations ∧ ∃ b, handshakeConsumeResponse symbolicSodium b run.myPriv run.state = .ok fin)
    (hsent : ∀ s payload, (s, payload) ∈ n'.sent → ∃ run fin, (run, fin) ∈ n'.finished ∧ s.sendKey = fin.sendKey)
    (hknown : n'.known ⊆ knownSymbols hidden n'.emitted) : Secure hidden sr n' where
  priv := by rw [hdaemon, h.priv]
  pub := by rw [hdaemon, h.pub]
  honest := hhonest
  finished := hfinished
  sent := hsent
  installs i s hs := by
    rw [htrace] at hs
    obtain ⟨run, hrun⟩ := h.installs i s hs
    exact ⟨run, hrun.mono hext⟩
  sessions i slot s hs := by
    rw [hdaemon] at hs
    rw [htrace]
    exact h.sessions i slot s hs
  known := hknown

theorem Network.extends_react (n : Network) (ev : Event Symbol) : (n.react ev).Extends n where
  priv := (step_cases symbolicSodium n.daemon ev).static.1
  pub := (step_cases symbolicSodium n.daemon ev).static.2
  config := (step_cases symbolicSodium n.daemon ev).config
  trace := List.subset_append_left _ _
  initiations := List.Subset.refl _
  sent := List.Subset.refl _

/-- The daemon answers an initiation it accepts. -/
theorem answered_react {ev : Event Symbol} {r : Recv Symbol} {init : ConsumedInitiation n.daemon.table}
    {resp : CreatedResponse Symbol} (hacc : InitiationAccepted symbolicSodium n.daemon (r.datagram.take 2048) init)
    (hresp : n.daemon.respond symbolicSodium init r.ephemeral = .ok resp)
    (hs : .install init.peer (n.daemon.newSession init resp r.now) ∈ (step symbolicSodium n.daemon ev).2) :
    Answered (n.react ev) init.peer (n.daemon.newSession init resp r.now) (n.daemon.responseRun hresp) := by
  have hext := n.extends_react ev
  refine ⟨List.mem_append_right _ hs, ⟨rfl, rfl⟩,
    PeerTable.hasKey_of_config hext.config ⟨_, List.getElem?_eq_getElem init.peer.isLt, rfl⟩,
    r.datagram.take 2048, n.daemon.table, init, ?_, rfl, rfl, rfl, rfl⟩
  rw [hext.priv, hext.pub]
  exact hacc.consume

/-- What the daemon sends is a response, or a packet it has sealed. -/
theorem Secure.datagram (h : Secure hidden sr n) {ev : Event Symbol}
    (hbytes : ∀ packet, ev = .tun packet → ∃ payload : List (BitVec 8), packet = payload.map ofByte) {dest : Endpoint}
    {b : List Symbol} (hb : .send dest b ∈ (step symbolicSodium n.daemon ev).2) : (n.react ev).Datagram b := by
  rcases (step_cases symbolicSodium n.daemon ev).send_origin hb with ⟨r, init, resp, -, hacc, hresp, hinst, -, rfl⟩ |
    ⟨packet, i, hev, hroute, -, henc, rfl⟩
  · exact .response (answered_react hacc hresp hinst)
  · obtain ⟨payload, rfl⟩ := hbytes packet hev
    obtain ⟨s₀, hmem, hsend, -⟩ := h.sessions i .current _ (PeerTable.established_get .current hroute.established)
    rw [← List.map_take]
    refine .outbound ⟨⟨i, s₀, List.mem_append_left _ hmem, hsend.symm⟩, List.mem_append_right _ ?_⟩
    rw [List.map_take]
    exact henc

/-- A move of the daemon. -/
theorem Secure.react (h : Secure hidden sr n) {ev : Event Symbol}
    (hbytes : ∀ packet, ev = .tun packet → ∃ payload : List (BitVec 8), packet = payload.map ofByte) :
    Secure hidden sr (n.react ev) := by
  have hext := n.extends_react ev
  refine ⟨hext.priv.trans h.priv, hext.pub.trans h.pub, h.honest, h.finished, h.sent, ?_, ?_, ?_⟩
  · intro i s hs
    rcases List.mem_append.mp hs with hs | hs
    · obtain ⟨run, hrun⟩ := h.installs i s hs
      exact ⟨run, hrun.mono hext⟩
    · obtain ⟨r, init, resp, -, hacc, hresp, rfl, rfl⟩ := (step_cases symbolicSodium n.daemon ev).install_origin hs
      exact ⟨_, answered_react hacc hresp hs⟩
  · intro i slot s hs
    rcases (step_cases symbolicSodium n.daemon ev).established_keys hs with ⟨slot', s₁, hs₁, hsend, hrecv⟩ | hmem
    · obtain ⟨s₀, hmem, hsend₀, hrecv₀⟩ := h.sessions i slot' s₁ hs₁
      exact ⟨s₀, List.mem_append_left _ hmem, hsend₀.trans hsend, hrecv₀.trans hrecv⟩
    · exact ⟨s, List.mem_append_right _ hmem, rfl, rfl⟩
  · rintro x (hx | ⟨dest, b, hb, hx⟩)
    · exact known_of_extends hext h.known hx
    · exact (h.datagram hbytes hb).within_known h.honest x hx

/-- **A move keeps the invariant.** -/
theorem Secure.move (h : Secure hidden sr n) (hmove : Move hidden n n') : Secure hidden sr n' := by
  have hsame : ∀ n'' : Network, n''.daemon = n.daemon → n''.trace = n.trace → n.initiations ⊆ n''.initiations →
      n.sent ⊆ n''.sent → n''.Extends n := by
    rintro n'' hdaemon htrace hinit hsent
    exact ⟨by rw [hdaemon], by rw [hdaemon], by rw [hdaemon], by rw [htrace]; exact List.Subset.refl _, hinit, hsent⟩
  cases hmove with
  | @learn x hx =>
    have hext := hsame { n with known := insert x n.known } rfl rfl (List.Subset.refl _) (List.Subset.refl _)
    have hknown := known_of_extends hext h.known
    have hplain : PlainKnown hidden { n with known := insert x n.known }.emitted := plainKnown_emitted h.honest
    exact h.quiet hext rfl rfl h.honest h.finished h.sent
      (Set.insert_subset (known_closed hplain n.known x hknown hx) hknown)
  | deliver _ => exact h.react nofun
  | read payload => exact h.react fun packet hev => ⟨payload, by injection hev with hev; exact hev.symm⟩
  | @initiate run hrun =>
    have hext := hsame { n with initiations := run :: n.initiations, known := n.known ∪ {x | x ∈ run.packet} } rfl rfl
      (List.subset_cons_self _ _) (List.Subset.refl _)
    have hhonest : ∀ run' ∈ run :: n.initiations, run'.Honest hidden := List.forall_mem_cons.mpr ⟨hrun, h.honest⟩
    refine h.quiet hext rfl rfl hhonest (fun run' fin hfin => ?_) h.sent ?_
    · obtain ⟨hmem, hb⟩ := h.finished run' fin hfin
      exact ⟨List.mem_cons_of_mem _ hmem, hb⟩
    · rintro x (hx | hx)
      · exact known_of_extends hext h.known hx
      · exact (Network.Datagram.initiation List.mem_cons_self).within_known hhonest x hx
  | @finish run hrun b _ fin hfin =>
    have hext := hsame { n with finished := (run, fin) :: n.finished } rfl rfl (List.Subset.refl _) (List.Subset.refl _)
    refine h.quiet hext rfl rfl h.honest (fun run' fin' hmem => ?_) (fun s payload hmem => ?_)
      fun x hx => known_of_extends hext h.known hx
    · rcases List.mem_cons.mp hmem with heq | hmem
      · cases heq
        exact ⟨hrun, b, hfin⟩
      · exact h.finished run' fin' hmem
    · obtain ⟨run', fin', hmem', hkey⟩ := h.sent s payload hmem
      exact ⟨run', fin', List.mem_cons_of_mem _ hmem', hkey⟩
  | @send run fin hfin s hkey payload =>
    obtain ⟨n'', hn''⟩ : ∃ n'', n'' = { n with
      sent := (s, payload) :: n.sent
      known := n.known ∪ {x | x ∈ (sealedPacket symbolicSodium s (payload.map ofByte)).wire} } := ⟨_, rfl⟩
    have hmem : (s, payload) ∈ n''.sent := by rw [hn'']; exact List.mem_cons_self
    have hext : n''.Extends n := hn'' ▸ hsame _ rfl rfl (List.Subset.refl _) (List.subset_cons_self _ _)
    have hhonest : ∀ run ∈ n''.initiations, run.Honest hidden := hn'' ▸ h.honest
    rw [← hn'']
    refine h.quiet hext (by rw [hn'']) (by rw [hn'']) hhonest (hn'' ▸ h.finished) ?_ ?_
    · intro s' payload' hmem'
      rw [hn''] at hmem' ⊢
      rcases List.mem_cons.mp hmem' with heq | hmem'
      · cases heq
        exact ⟨run, fin, hfin, hkey⟩
      · exact h.sent s' payload' hmem'
    · have hknown : n''.known = n.known ∪ {x | x ∈ (sealedPacket symbolicSodium s (payload.map ofByte)).wire} := by
        rw [hn'']
      rw [hknown]
      rintro x (hx | hx)
      · exact known_of_extends hext h.known hx
      · exact (Network.Datagram.inbound hmem).within_known hhonest x hx

theorem Network.Start.secure (h : n.Start hidden sr) : Secure hidden sr n where
  priv := h.priv
  pub := h.pub
  honest := by rw [h.initiations]; exact nofun
  finished := by rw [h.finished]; exact nofun
  sent := by rw [h.sent]; exact nofun
  installs := by rw [h.trace]; exact nofun
  sessions i slot s hs := absurd hs (h.noSessions i slot s)
  known := fun _ hx => (h.known hx).mono (Set.empty_subset _)

/-- **It holds in every state that is reached**, however the moves are interleaved. -/
theorem Secure.reachable {n₀ : Network} (hstart : n₀.Start hidden sr) (h : n₀.Reachable hidden n) :
    Secure hidden sr n := by
  induction h with
  | refl => exact hstart.secure
  | tail _ hmove ih => exact ih.move hmove

end

end VpnTunnel
