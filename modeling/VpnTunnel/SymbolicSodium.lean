import Mathlib.SetTheory.Cardinal.Order
import VpnTunnel.Daemon
import VpnTunnel.HonestHandshake

/-!
# A symbolic library

No function on bytes has no collisions, so `Sodium.Symbolic` can only hold over octets that are more
than bytes. Here an octet is a term (`Symbol`): a byte, or an octet of something drawn or computed, which
says what it was computed from. A digest is made of octets that hold the message and the key, a sealed
field of octets that hold the key, the nonce, the associated data and the plaintext. Nothing can be
forged because nothing else is equal to such a term.

Unlike bytes, the octets of a private key cannot be guessed: a private key is a name, drawn for it. Any
string has a public key, and the secret two strings share is the same from both sides, which needs an
order on terms, no matter which.

Around it stand two hosts: `symbolicInitiator` is a run of the first one that starts a handshake,
`symbolicResponder` a run of the second that answers it, and `symbolicDaemon` the daemon of the second.
Their static private keys are 1 and 2, their ephemeral ones 3 and 4. The symbolic library is not made
for evaluation; that the hosts accept each other's messages, with whatever session indices, is proved.

## What is proved

* `symbolicSodium_symbolic`, `symbolicSodium_correct`, `symbolicSodium_dhByPoint` — the library obeys all
  three laws, so that they are consistent.
-/

namespace VpnTunnel

open Octets

/-- An octet of the symbolic library. -/
inductive Symbol where
  /-- A byte. -/
  | byte (b : BitVec 8)
  /-- The octet `i` of the private key with a name. -/
  | priv (name i : ℕ)
  /-- The octet `i` of the public key of a string. -/
  | pub (a : Symbol) (i : ℕ)
  /-- The octet `i` of the secret two strings share. -/
  | secret (a b : Symbol) (i : ℕ)
  /-- The octet `i` of a digest of some length. -/
  | digest (outLen : ℕ) (msg key : Symbol) (i : ℕ)
  /-- The octet `i` of a ciphertext with its tag. -/
  | sealed (key nonce ad m : Symbol) (i : ℕ)
  /-- The empty string. -/
  | nil
  /-- A string of octets. -/
  | cons (x xs : Symbol)
  deriving DecidableEq

namespace Symbol

instance : Octet Symbol where
  ofByte := byte
  toByte
    | byte b => b
    | _ => 0
  toByte_ofByte _ := rfl

/-- A string of octets as one term. -/
def ofOctets : List Symbol → Symbol
  | [] => nil
  | x :: xs => cons x (ofOctets xs)

/-- The octets of a string. -/
def octets : Symbol → List Symbol
  | cons x xs => x :: xs.octets
  | _ => []

@[simp] theorem octets_ofOctets (l : List Symbol) : (ofOctets l).octets = l := by
  induction l with
  | nil => rfl
  | cons x xs ih => rw [ofOctets, octets, ih]

theorem ofOctets_injective : Function.Injective ofOctets :=
  Function.LeftInverse.injective octets_ofOctets

theorem ofOctets_toList_injective {n : ℕ} {u v : Bytes Symbol n} (h : ofOctets u.toList = ofOctets v.toList) : u = v :=
  List.Vector.eq _ _ (ofOctets_injective h)

/-- The first `n` octets of something. -/
def take (n : ℕ) (f : ℕ → Symbol) : Bytes Symbol n := ⟨(List.range n).map f, by simp⟩

theorem mem_take {n : ℕ} {f : ℕ → Symbol} {x : Symbol} : x ∈ (take n f).toList ↔ ∃ i < n, x = f i := by
  simp [take, eq_comm]

theorem head_take (n : ℕ) (f : ℕ → Symbol) : (take (n + 1) f).head = f 0 := by
  simp [take, List.range_succ_eq_map, List.Vector.head]

open Classical in
/-- The secret two strings share. -/
noncomputable def shared (a b : Symbol) : Bytes Symbol 32 :=
  take 32 (if WellOrderingRel a b then secret a b else secret b a)

/-- It is the same from both sides. -/
theorem shared_comm (a b : Symbol) : shared a b = shared b a := by
  unfold shared
  rcases trichotomous_of WellOrderingRel a b with h | rfl | h
  · rw [if_pos h, if_neg (asymm h)]
  · rfl
  · rw [if_neg (asymm h), if_pos h]

/-- Two strings are recognised in the secret they share. -/
theorem shared_injective {a b a' b' : Symbol} (h : shared a b = shared a' b') :
    (a = a' ∧ b = b') ∨ (a = b' ∧ b = a') := by
  have hhead : (shared a b).head = (shared a' b').head := congrArg List.Vector.head h
  unfold shared at hhead
  rw [head_take, head_take] at hhead
  split at hhead <;> split at hhead <;> simp only [secret.injEq, and_true] at hhead <;> tauto

/-- A plaintext sealed: the octets of the ciphertext, then those of the tag. -/
def encrypt {n : ℕ} (key : Bytes Symbol 32) (nonce : Bytes Symbol 12) (ad : List Symbol) (m : Bytes Symbol n) :
    Bytes Symbol n × Bytes Symbol 16 :=
  let octet := sealed (ofOctets key.toList) (ofOctets nonce.toList) (ofOctets ad) (ofOctets m.toList)
  (take n octet, take 16 fun i => octet (n + i))

/-- The plaintext that an octet of a tag holds. -/
def plaintext (n : ℕ) : Symbol → Option (Bytes Symbol n)
  | sealed _ _ _ m _ => if h : m.octets.length = n then some ⟨m.octets, h⟩ else none
  | _ => none

theorem head_encrypt {n : ℕ} (key : Bytes Symbol 32) (nonce : Bytes Symbol 12) (ad : List Symbol)
    (m : Bytes Symbol n) : (encrypt key nonce ad m).2.head =
      sealed (ofOctets key.toList) (ofOctets nonce.toList) (ofOctets ad) (ofOctets m.toList) n :=
  head_take 15 _

theorem plaintext_encrypt {n : ℕ} (key : Bytes Symbol 32) (nonce : Bytes Symbol 12) (ad : List Symbol)
    (m : Bytes Symbol n) : plaintext n (encrypt key nonce ad m).2.head = some m := by
  have hlen : (ofOctets m.toList).octets.length = n := by simp
  rw [head_encrypt, plaintext, dif_pos hlen]
  exact congrArg some (List.Vector.eq _ _ (octets_ofOctets m.toList))

end Symbol

open VpnTunnel.Symbol

/-- The symbolic library. -/
noncomputable def symbolicSodium : Sodium Symbol where
  generichash outLen msg key := take outLen (digest outLen (ofOctets msg) (ofOctets key))
  encryptDetached := encrypt
  decryptDetached {n} key nonce ad c tag := (plaintext n tag.head).filter fun m => encrypt key nonce ad m = (c, tag)
  scalarmult n p :=
    match p.head with
    | pub b _ => if p = take 32 (pub b) then some (shared (ofOctets n.toList) b) else none
    | _ => none
  scalarmultBase n := take 32 (pub (ofOctets n.toList))

/-- An exchange with a public key gives the shared secret. -/
theorem symbolicSodium_scalarmult (a b : Bytes Symbol 32) :
    symbolicSodium.scalarmult a (symbolicSodium.scalarmultBase b) =
      some (shared (ofOctets a.toList) (ofOctets b.toList)) := by
  simp only [symbolicSodium, head_take, if_true]

theorem symbolicSodium_correct : symbolicSodium.Correct where
  dh_comm a b := by rw [symbolicSodium_scalarmult, symbolicSodium_scalarmult, shared_comm]
  decrypt_encrypt key nonce ad m :=
    Option.filter_eq_some_iff.mpr ⟨plaintext_encrypt key nonce ad m, decide_eq_true rfl⟩

theorem symbolicSodium_symbolic : symbolicSodium.Symbolic where
  generichash_inj h := by
    have hhead := congrArg List.Vector.head h
    simp only [symbolicSodium, head_take, digest.injEq] at hhead
    exact ⟨ofOctets_injective hhead.2.2.1, ofOctets_injective hhead.2.1⟩
  encrypt_inj h := by
    have hhead := congrArg (fun out => out.2.head) h
    simp only [symbolicSodium, head_encrypt, sealed.injEq] at hhead
    obtain ⟨hkey, hnonce, had, hm, -⟩ := hhead
    exact ⟨ofOctets_toList_injective hkey, ofOctets_toList_injective hnonce, ofOctets_injective had,
      ofOctets_toList_injective hm⟩
  encrypt_of_decrypt h := of_decide_eq_true (Option.filter_eq_some_iff.mp h).2

theorem symbolicSodium_dhByPoint : symbolicSodium.DhByPoint := by
  intro a b p h
  simp only [symbolicSodium] at h ⊢
  split
  · next c _ hhead =>
    rw [hhead] at h
    by_cases hp : p = take 32 (pub c)
    · simp [hp] at h
    · rw [if_neg hp]
  · rfl

/-! ### Two hosts -/

/-- A private key. -/
def privateKey (name : ℕ) : Bytes Symbol 32 := take 32 (priv name)

/-- The public key of a private key. -/
noncomputable def publicKey (name : ℕ) : Bytes Symbol 32 := symbolicSodium.scalarmultBase (privateKey name)

/-- The secret two private keys share. -/
noncomputable def sharedKey (name name' : ℕ) : Bytes Symbol 32 :=
  shared (ofOctets (privateKey name).toList) (ofOctets (privateKey name').toList)

/-- The initiation, from the initiator to the responder, with a session index. -/
noncomputable def symbolicInitiation (idx : BitVec 32) : PacketHandshakeInit Symbol :=
  initiationMsg symbolicSodium (publicKey 1) (publicKey 2) idx (publicKey 3) (timestampBytes 1000 0)
    (sharedKey 3 2) (sharedKey 1 2)

/-- It fits into the buffer of the responder. -/
theorem take_symbolicInitiation (idx : BitVec 32) :
    (symbolicInitiation idx).wire.take 2048 = (symbolicInitiation idx).wire :=
  List.take_of_length_le (by simp [PacketHandshakeInit.wire])

/-- The run that creates it, with session index 7. -/
noncomputable def symbolicInitiator : InitiationRun symbolicSodium where
  maxLen := 148
  myPriv := privateKey 1
  myPub := publicKey 1
  theirPub := publicKey 2
  localIndex := 7
  ephemeral := privateKey 3
  tvSec := 1000
  tvNsec := 0
  packet := (symbolicInitiation 7).wire
  state := initiationState symbolicSodium (symbolicInitiation 7) (publicKey 2) (privateKey 3) (sharedKey 3 2)
    (sharedKey 1 2) 1000
  created := handshakeCreateInitiation_eq_ok.mpr ⟨le_rfl, _, _, symbolicSodium_scalarmult _ _,
    symbolicSodium_scalarmult _ _, _, rfl, rfl, rfl⟩

/-- The response to it, with two session indices. -/
noncomputable def symbolicResponse (sender receiver : BitVec 32) : PacketHandshakeResp Symbol :=
  responseMsg symbolicSodium (publicKey 1) sender receiver symbolicInitiator.state.chainingKey
    symbolicInitiator.state.hash (publicKey 4) (sharedKey 4 3) (sharedKey 4 1)

/-- The transport keys of the responder. -/
noncomputable def symbolicTransport : Bytes Symbol 32 × Bytes Symbol 32 :=
  transportKeys symbolicSodium symbolicInitiator.state.chainingKey (publicKey 4) (sharedKey 4 3)
    (sharedKey 4 1)

/-- The run that creates it, with session index 1. -/
noncomputable def symbolicResponder : ResponseRun symbolicSodium where
  maxLen := 92
  theirEphemeral := publicKey 3
  theirStatic := publicKey 1
  myIndex := 1
  theirIndex := 7
  chainingKey := symbolicInitiator.state.chainingKey
  hash := symbolicInitiator.state.hash
  ephemeral := privateKey 4
  response := ⟨(symbolicResponse 1 7).wire, symbolicTransport.1, symbolicTransport.2⟩
  created := handshakeCreateResponse_eq_ok.mpr ⟨le_rfl, _, _, symbolicSodium_scalarmult _ _,
    symbolicSodium_scalarmult _ _, rfl, rfl, rfl⟩

/-- The peers of the responder: the initiator. -/
noncomputable def symbolicTable : PeerTable Symbol :=
  ⟨[Peer.registered (publicKey 1) none], Nat.le_of_ble_eq_true rfl, 1⟩

/-- The responder, as the peer the initiator has: there is no session yet. -/
noncomputable def symbolicPeer : Peer Symbol := Peer.registered (publicKey 2) none

/-- The daemon of the responder. -/
noncomputable def symbolicDaemon : Daemon Symbol := ⟨privateKey 2, publicKey 2, symbolicTable, ⟨true, 1440⟩⟩

/-- What the responder has when it has consumed the initiation. -/
noncomputable def symbolicConsumed (idx : BitVec 32) : ConsumedInitiation symbolicTable :=
  ⟨⟨0, Nat.zero_lt_one⟩, symbolicInitiation idx, symbolicInitiator.state.chainingKey, symbolicInitiator.state.hash,
    timestampBytes 1000 0⟩

/-- A host with the private key 2 that knows the initiator, and has had no handshake with it, accepts the
initiation, whatever index stands in it. -/
theorem symbolicInitiation_consumed (idx : BitVec 32) {t : PeerTable Symbol} {i : Fin t.peers.length}
    (hfind : peerFindByPubkey t (publicKey 1) = some i) (hfirst : (t.peers.get i).lastHandshakeTime = 0) :
    handshakeConsumeInitiation symbolicSodium (symbolicInitiation idx).wire (privateKey 2) (publicKey 2) t =
      .ok ⟨i, symbolicInitiation idx, symbolicInitiator.state.chainingKey, symbolicInitiator.state.hash,
        timestampBytes 1000 0⟩ :=
  handshakeConsumeInitiation_honest symbolicSodium_correct hfind (.inl hfirst)
    (symbolicSodium_scalarmult (privateKey 3) (privateKey 2)) (symbolicSodium_scalarmult _ _) _ rfl

/-- So does the responder. -/
theorem symbolicInitiation_accepted (idx : BitVec 32) :
    handshakeConsumeInitiation symbolicSodium (symbolicInitiation idx).wire (privateKey 2) (publicKey 2)
      symbolicTable = .ok (symbolicConsumed idx) :=
  symbolicInitiation_consumed idx (peerFindByPubkey_eq_some.mpr ⟨rfl, fun _ hj => absurd hj (Nat.not_lt_zero _)⟩) rfl

/-- The initiator accepts the response, whatever sender index stands in it. -/
theorem symbolicResponse_accepted (sender : BitVec 32) :
    handshakeConsumeResponse symbolicSodium (symbolicResponse sender 7).wire (privateKey 1) symbolicInitiator.state =
      .ok ⟨sender, symbolicTransport.2, symbolicTransport.1⟩ := by
  have hdh : ∀ a b : ℕ, symbolicSodium.scalarmult (privateKey a) (publicKey b) = some (sharedKey b a) := by
    intro a b
    rw [publicKey, symbolicSodium_correct.dh_comm]
    exact symbolicSodium_scalarmult _ _
  exact handshakeConsumeResponse_honest symbolicSodium_correct symbolicInitiator.state sender (publicKey 1)
    (hdh 3 4) (hdh 1 4)

end VpnTunnel
