import VpnTunnel.Lib.Scratch
import VpnTunnel.ToySodium

/-!
# What the handshake leaves on the stack

"All session keys, ephemeral private keys, and shared secrets are wiped with `sodium_memzero` immediately after use":
the four functions of `src/handshake.c` hold such values in local buffers, and wipe them before they return, on the
way out of an error as well. Here the functions are written down with these buffers, and the question is what is in
them at each return.

## The model

`…Proc` is a function of the source as a procedure on its local buffers of 32 octets: what is computed is put into a
buffer and read from it again, in the order of the source, and a write says which kind of secret it puts there. The
buffers hold anything to begin with. `vpn_crypto_dh` fails when X25519 refuses the point; what it has put into its
output then is not known (`junk`) and counts as a DH output. The message under construction and the timestamp never
hold a secret and are plain values, as are the caller's buffers.

## The argument

A procedure returns what the function of `Handshake` returns (`…Proc_result`): the buffers are read only while they
hold what they should. What it leaves is computed path by path, over the outcomes of the exchanges and of the
decryptions, and which buffers leak follows from the order of the writes alone (`Frame.wiped_iff`).

## What is proved

* `handshakeCreateInitiationProc_wiped`, `handshakeConsumeInitiationProc_wiped` — the two functions of the initiation
  wipe every secret on every path.
* `handshakeCreateResponseProc_wiped_iff`, `handshakeConsumeResponseProc_wiped_iff` — the two functions of the response
  wipe the chaining key `c` only when they succeed: an error after it was filled in leaves it.
* `secrets_wiped_iff` — so it can be said of each call from its arguments that it wipes every secret and, with a hash
  that is never all zero, that it does not.
-/

namespace VpnTunnel

open Octets Scratch

variable {β : Type} [Octet β]

/-- The kinds of secrets. -/
inductive Secret
  | dhOutput | aeadKey | chainingKey | ephemeralPrivate | transportKey

/-- The local buffers of the four functions. -/
inductive Local
  | ephemeralPub | ephemeralPriv | dh1 | kappa1 | dh2 | kappa2 | kappa | theirStatic | macKey | c | h
  | keySend | keyRecv
  deriving DecidableEq

instance : Zero (Bytes β 32) := ⟨zeroBytes 32⟩

/-- A procedure with such buffers. -/
abbrev LocalProc (β α : Type) := Proc Local (Bytes β 32) Secret Errno α

/-! ### The four functions -/

variable (S : Sodium β) (junk : Bytes β 32)

/-- A key exchange into the buffer `x`: `vpn_crypto_dh` and, if it fails, the wiping of `wiped` and the return. -/
def exchange (x : Local) (theirPublicKey myPrivateKey : Bytes β 32) (wiped : List Local) (e : Errno) :
    LocalProc β Unit :=
  match vpnCryptoDh S theirPublicKey myPrivateKey with
  | .ok sharedSecret => store x (some .dhOutput) sharedSecret
  | .error _ => do
    store x (some .dhOutput) junk
    wipeAndThrow e wiped

/-- Open a field with the key in the buffer `x`: `vpn_crypto_aead_decrypt` and, if it fails, the wiping of the key and
the return. -/
def openOrWipe {n k : ℕ} (x : Local) (field : Bytes β k) (hash : Bytes β 32) (h : n + 16 = k) :
    LocalProc β (Bytes β n) := do
  match openField S field hash (← load x) h with
  | .ok m => return m
  | .error _ => wipeAndThrow .ebadmsg [x]

/-- `handshake_create_initiation` with its buffers. -/
def handshakeCreateInitiationProc (maxLen : ℕ) (myPrivkey myPubkey theirPubkey : Bytes β 32) (localIndex : BitVec 32)
    (ephemeralPrivate : Bytes β 32) (tvSec tvNsec : BitVec 64) : LocalProc β (List β × HandshakeInitState β) :=
  if maxLen < 148 then throw .enospc
  else do
    -- the ephemeral private key, the chaining key and the hash are in the caller's `out_state`
    store .ephemeralPub none (vpnCryptoGenerateKeypair S ephemeralPrivate)
    let ephemeralPub ← load .ephemeralPub
    let init := initChainingAndHash S
    let hash := mixHash S init.2 theirPubkey.toList
    let hash := mixHash S hash ephemeralPub.toList
    let chainingKey := vpnKdf1 S init.1 ephemeralPub.toList
    -- DH(e_i, S_r)
    exchange S junk .dh1 theirPubkey ephemeralPrivate [.dh1] .efault
    let keys := vpnKdf2 S chainingKey (← load .dh1).toList
    store .kappa1 (some .aeadKey) keys.2
    memzero .dh1
    let encryptedStatic : Bytes β 48 := sealField S myPubkey hash (← load .kappa1) encryptedStatic_length
    memzero .kappa1
    let hash := mixHash S hash encryptedStatic.toList
    -- DH(s_i, S_r)
    exchange S junk .dh2 theirPubkey myPrivkey [.dh2] .efault
    let keys := vpnKdf2 S keys.1 (← load .dh2).toList
    store .kappa2 (some .aeadKey) keys.2
    memzero .dh2
    let encryptedTimestamp : Bytes β 28 :=
      sealField S (timestampBytes tvSec tvNsec) hash (← load .kappa2) encryptedTimestamp_length
    memzero .kappa2
    let hash := mixHash S hash encryptedTimestamp.toList
    store .macKey none (vpnCryptoHash S theirPubkey.toList)
    let mac1 := vpnCryptoMac16 S (← load .macKey)
      (ephemeralPub.toList ++ encryptedStatic.toList ++ encryptedTimestamp.toList)
    let packet ← lift (packetSerializeHandshakeInit maxLen
      { senderIndex := localIndex
        unencryptedEphemeral := ephemeralPub
        encryptedStatic := encryptedStatic
        encryptedTimestamp := encryptedTimestamp
        mac1 := mac1
        mac2 := zeroBytes 16 })
    return (packet,
      { ephemeralPrivate := ephemeralPrivate
        chainingKey := keys.1
        hash := hash
        localIndex := localIndex
        timestamp := tvSec })

/-- `handshake_consume_initiation` with its buffers. -/
def handshakeConsumeInitiationProc [DecidableEq β] (packet : List β) (myPrivkey myPubkey : Bytes β 32)
    (peerTable : PeerTable β) : LocalProc β (ConsumedInitiation peerTable) := do
  let parsed ← lift (packetParseHandshakeInit packet)
  -- the chaining key and the hash are the caller's
  let init := initChainingAndHash S
  let hash := mixHash S init.2 myPubkey.toList
  let hash := mixHash S hash parsed.unencryptedEphemeral.toList
  let chainingKey := vpnKdf1 S init.1 parsed.unencryptedEphemeral.toList
  -- DH(s_r, E_i)
  exchange S junk .dh1 parsed.unencryptedEphemeral myPrivkey [.dh1] .ebadmsg
  let keys := vpnKdf2 S chainingKey (← load .dh1).toList
  store .kappa1 (some .aeadKey) keys.2
  memzero .dh1
  store .theirStatic none (← openOrWipe S .kappa1 parsed.encryptedStatic hash encryptedStatic_length)
  memzero .kappa1
  match peerFindByPubkey peerTable (← load .theirStatic) with
  | none => throw .eacces
  | some peer => do
    let hash := mixHash S hash parsed.encryptedStatic.toList
    -- DH(s_r, S_i)
    exchange S junk .dh2 (← load .theirStatic) myPrivkey [.dh2] .ebadmsg
    let keys := vpnKdf2 S keys.1 (← load .dh2).toList
    store .kappa2 (some .aeadKey) keys.2
    memzero .dh2
    let timestamp ← openOrWipe S .kappa2 parsed.encryptedTimestamp hash encryptedTimestamp_length
    memzero .kappa2
    let last := (peerTable.peers.get peer).lastHandshakeTime
    if last ≠ 0 ∧ (timestampSec timestamp).sle last then throw .ebadmsg
    else do
      let hash := mixHash S hash parsed.encryptedTimestamp.toList
      return { peer := peer, parsed := parsed, chainingKey := keys.1, hash := hash, timestamp := timestamp }

/-- `handshake_create_response` with its buffers. -/
def handshakeCreateResponseProc (maxLen : ℕ) (theirEphemeral theirStatic : Bytes β 32) (myIndex theirIndex : BitVec 32)
    (chainingKey hash : Bytes β 32) (ephemeralPriv : Bytes β 32) : LocalProc β (CreatedResponse β) :=
  if maxLen < 92 then throw .enospc
  else do
    store .ephemeralPriv (some .ephemeralPrivate) ephemeralPriv
    store .ephemeralPub none (vpnCryptoGenerateKeypair S (← load .ephemeralPriv))
    let ephemeralPub ← load .ephemeralPub
    store .c (some .chainingKey) chainingKey
    store .h none hash
    store .h none (mixHash S (← load .h) ephemeralPub.toList)
    store .c (some .chainingKey) (vpnKdf1 S (← load .c) ephemeralPub.toList)
    -- DH(e_r, E_i)
    exchange S junk .dh1 theirEphemeral (← load .ephemeralPriv) [.dh1, .ephemeralPriv] .efault
    store .c (some .chainingKey) (vpnKdf1 S (← load .c) (← load .dh1).toList)
    memzero .dh1
    -- DH(e_r, S_i)
    exchange S junk .dh2 theirStatic (← load .ephemeralPriv) [.dh2, .ephemeralPriv] .efault
    memzero .ephemeralPriv
    let keys := vpnKdf2 S (← load .c) (← load .dh2).toList
    store .c (some .chainingKey) keys.1
    store .kappa (some .aeadKey) keys.2
    memzero .dh2
    let encryptedNothing : Bytes β 16 :=
      sealField S List.Vector.nil (← load .h) (← load .kappa) encryptedNothing_length
    memzero .kappa
    store .h none (mixHash S (← load .h) encryptedNothing.toList)
    -- the transport keys go to the caller
    let transport := vpnKdf2 S (← load .c) []
    store .macKey none (vpnCryptoHash S theirStatic.toList)
    let mac1 := vpnCryptoMac16 S (← load .macKey)
      (ephemeralPub.toList ++ encryptedNothing.toList ++ (zeroBytes 4 : Bytes β 4).toList)
    memzero .c
    memzero .h
    let packet ← lift (packetSerializeHandshakeResp maxLen
      { senderIndex := myIndex
        receiverIndex := theirIndex
        unencryptedEphemeral := ephemeralPub
        encryptedNothing := encryptedNothing
        mac1 := mac1
        mac2 := zeroBytes 16 })
    return { packet := packet, sendKey := transport.1, recvKey := transport.2 }

/-- `handshake_consume_response` with its buffers. -/
def handshakeConsumeResponseProc (packet : List β) (myPrivkey : Bytes β 32) (initState : HandshakeInitState β) :
    LocalProc β (ConsumedResponse β) := do
  let msg ← lift (packetParseHandshakeResp packet)
  if msg.receiverIndex ≠ initState.localIndex then throw .ebadmsg
  else do
    store .c (some .chainingKey) initState.chainingKey
    store .h none initState.hash
    store .h none (mixHash S (← load .h) msg.unencryptedEphemeral.toList)
    store .c (some .chainingKey) (vpnKdf1 S (← load .c) msg.unencryptedEphemeral.toList)
    -- DH(e_i, E_r)
    exchange S junk .dh1 msg.unencryptedEphemeral initState.ephemeralPrivate [.dh1] .ebadmsg
    store .c (some .chainingKey) (vpnKdf1 S (← load .c) (← load .dh1).toList)
    memzero .dh1
    -- DH(s_i, E_r)
    exchange S junk .dh2 msg.unencryptedEphemeral myPrivkey [.dh2] .ebadmsg
    let keys := vpnKdf2 S (← load .c) (← load .dh2).toList
    store .c (some .chainingKey) keys.1
    store .kappa (some .aeadKey) keys.2
    memzero .dh2
    let _ ← openOrWipe S .kappa msg.encryptedNothing (← load .h) encryptedNothing_length
    memzero .kappa
    store .h none (mixHash S (← load .h) msg.encryptedNothing.toList)
    let transport := vpnKdf2 S (← load .c) []
    store .keySend (some .transportKey) transport.1
    store .keyRecv (some .transportKey) transport.2
    let sendKey ← load .keyRecv
    let recvKey ← load .keySend
    memzero .keySend
    memzero .keyRecv
    memzero .c
    memzero .h
    return { peerIndex := msg.senderIndex, sendKey := sendKey, recvKey := recvKey }

/-! ### The two steps that can fail -/

section

variable (f : Frame Local (Bytes β 32) Secret) (Q : Frame Local (Bytes β 32) Secret → Prop) {α : Type}

omit [Octet β] in
/-- The octets of a failed exchange are not used. -/
@[simp]
theorem result_exchange_bind (x : Local) (p a : Bytes β 32) (wiped : List Local) (e : Errno)
    (k : Unit → LocalProc β α) : result (exchange S junk x p a wiped e >>= k) f =
      ((vpnCryptoDh S p a).mapError fun _ => e) >>= fun z => result (k ()) (f.write (.store x (some .dhOutput) z)) := by
  unfold exchange
  cases vpnCryptoDh S p a with
  | ok z => rfl
  | error _ => exact result_wipeAndThrow_bind (f.write (.store x (some .dhOutput) junk)) e wiped k

omit [Octet β] in
/-- What is left depends on whether X25519 refuses the point. -/
@[simp]
theorem leaves_exchange_bind (x : Local) (p a : Bytes β 32) (wiped : List Local) (e : Errno)
    (k : Unit → LocalProc β α) : Leaves (exchange S junk x p a wiped e >>= k) f Q ↔
      (S.scalarmult a p = none →
        Q (wiped.foldl (fun f x => f.write (.memzero x)) (f.write (.store x (some .dhOutput) junk)))) ∧
      ∀ z, S.scalarmult a p = some z → Leaves (k ()) (f.write (.store x (some .dhOutput) z)) Q := by
  unfold exchange vpnCryptoDh
  cases S.scalarmult a p with
  | none =>
    have hrun := leaves_wipeAndThrow_bind (f.write (.store x (some .dhOutput) junk)) Q e wiped k
    simpa using hrun
  | some z => simp

variable {n m : ℕ}

@[simp]
theorem result_openOrWipe_bind (x : Local) (field : Bytes β m) (hash : Bytes β 32) (h : n + 16 = m)
    (k : Bytes β n → LocalProc β α) : result (openOrWipe S x field hash h >>= k) f =
      openField S field hash (f.contents x) h >>= fun m => result (k m) f := by
  rw [openOrWipe, bind_assoc, result_load_bind]
  unfold openField vpnCryptoAeadDecrypt
  cases S.decryptDetached (f.contents x) _ _ _ _ with
  | some m => rfl
  | none => rfl

@[simp]
theorem leaves_openOrWipe_bind (x : Local) (field : Bytes β m) (hash : Bytes β 32) (h : n + 16 = m)
    (k : Bytes β n → LocalProc β α) : Leaves (openOrWipe S x field hash h >>= k) f Q ↔
      (∀ e, openField S field hash (f.contents x) h = .error e → Q (f.write (.memzero x))) ∧
      ∀ m, openField S field hash (f.contents x) h = .ok m → Leaves (k m) f Q := by
  rw [openOrWipe, bind_assoc, leaves_load_bind]
  cases openField S field hash (f.contents x) h with
  | ok m => simp
  | error e =>
    have hrun := leaves_wipeAndThrow_bind f Q .ebadmsg [x] k
    simpa using hrun

end

/-! ### The results -/

omit [Octet β] in
/-- The only error of an exchange. -/
@[simp]
theorem mapError_vpnCryptoDh (p a : Bytes β 32) :
    ((vpnCryptoDh S p a).mapError fun _ => Errno.ebadmsg) = vpnCryptoDh S p a := by
  unfold vpnCryptoDh
  cases S.scalarmult a p <;> rfl

variable (stack : Local → Bytes β 32)

theorem handshakeCreateInitiationProc_result (maxLen : ℕ) (myPriv myPub theirPub : Bytes β 32) (idx : BitVec 32)
    (ei : Bytes β 32) (tvSec tvNsec : BitVec 64) :
    result (handshakeCreateInitiationProc S junk maxLen myPriv myPub theirPub idx ei tvSec tvNsec) (.fresh stack) =
      handshakeCreateInitiation S maxLen myPriv myPub theirPub idx ei tvSec tvNsec := by
  simp [handshakeCreateInitiationProc, handshakeCreateInitiation, -bind_pure_comp]

theorem handshakeConsumeInitiationProc_result [DecidableEq β] (packet : List β) (myPriv myPub : Bytes β 32)
    (t : PeerTable β) : result (handshakeConsumeInitiationProc S junk packet myPriv myPub t) (.fresh stack) =
      handshakeConsumeInitiation S packet myPriv myPub t := by
  simp [handshakeConsumeInitiationProc, handshakeConsumeInitiation, -bind_pure_comp]
  refine bind_congr fun parsed => bind_congr fun z₁ => bind_congr fun theirStatic => ?_
  cases peerFindByPubkey t theirStatic with
  | none => rfl
  | some peer => simp

theorem handshakeCreateResponseProc_result (maxLen : ℕ) (theirEph theirStatic : Bytes β 32) (myIdx theirIdx : BitVec 32)
    (ck hash er : Bytes β 32) :
    result (handshakeCreateResponseProc S junk maxLen theirEph theirStatic myIdx theirIdx ck hash er) (.fresh stack) =
      handshakeCreateResponse S maxLen theirEph theirStatic myIdx theirIdx ck hash er := by
  simp [handshakeCreateResponseProc, handshakeCreateResponse, -bind_pure_comp]

theorem handshakeConsumeResponseProc_result (packet : List β) (myPriv : Bytes β 32) (st : HandshakeInitState β) :
    result (handshakeConsumeResponseProc S junk packet myPriv st) (.fresh stack) =
      handshakeConsumeResponse S packet myPriv st := by
  simp [handshakeConsumeResponseProc, handshakeConsumeResponse, -bind_pure_comp]

/-! ### What is left -/

/-- `handshake_create_initiation` wipes every secret, whichever way it returns. -/
theorem handshakeCreateInitiationProc_wiped (maxLen : ℕ) (myPriv myPub theirPub : Bytes β 32) (idx : BitVec 32)
    (ei : Bytes β 32) (tvSec tvNsec : BitVec 64) :
    Leaves (handshakeCreateInitiationProc S junk maxLen myPriv myPub theirPub idx ei tvSec tvNsec) (.fresh stack)
      Frame.Wiped := by
  simp [handshakeCreateInitiationProc, -bind_pure_comp]
  -- no room; the first exchange fails; the second one; and the two outcomes of the serialiser
  refine ⟨fun _ => ?_, fun _ => ⟨fun _ => ?_, fun z₁ _ => ⟨fun _ => ?_, fun z₂ _ => ⟨fun _ _ => ?_, fun _ _ => ?_⟩⟩⟩⟩
  all_goals exact Frame.wiped_of_leaks_eq_nil (by simp; decide +kernel)

/-- `handshake_consume_initiation` wipes every secret, whichever way it returns. -/
theorem handshakeConsumeInitiationProc_wiped [DecidableEq β] (packet : List β) (myPriv myPub : Bytes β 32)
    (t : PeerTable β) :
    Leaves (handshakeConsumeInitiationProc S junk packet myPriv myPub t) (.fresh stack) Frame.Wiped := by
  simp [handshakeConsumeInitiationProc, -bind_pure_comp]
  -- no initiation; the first exchange fails; the static key does not open
  refine ⟨fun _ _ => ?_, fun parsed _ => ⟨fun _ => ?_, fun z₁ _ => ⟨fun _ _ => ?_, fun theirStatic _ => ?_⟩⟩⟩
  · exact Frame.wiped_of_leaks_eq_nil rfl
  · exact Frame.wiped_of_leaks_eq_nil (by simp; decide +kernel)
  · exact Frame.wiped_of_leaks_eq_nil (by simp; decide +kernel)
  cases peerFindByPubkey t theirStatic with
  | none =>
    simp only [leaves_throw]
    exact Frame.wiped_of_leaks_eq_nil (by simp; decide +kernel)
  | some peer =>
    simp
    -- the second exchange fails; the timestamp does not open; it is stale; success
    refine ⟨fun _ => ?_, fun z₂ _ => ⟨fun _ _ => ?_, fun timestamp _ => ⟨fun _ _ => ?_, fun _ => ?_⟩⟩⟩
    all_goals exact Frame.wiped_of_leaks_eq_nil (by simp; decide +kernel)

/-- `handshake_create_response` leaves the chaining key in `c` when an exchange fails. -/
theorem handshakeCreateResponseProc_wiped_iff (maxLen : ℕ) (theirEph theirStatic : Bytes β 32)
    (myIdx theirIdx : BitVec 32) (ck hash er : Bytes β 32) :
    Leaves (handshakeCreateResponseProc S junk maxLen theirEph theirStatic myIdx theirIdx ck hash er) (.fresh stack)
      Frame.Wiped ↔
    (92 ≤ maxLen →
      (S.scalarmult er theirEph = none → vpnKdf1 S ck (vpnCryptoGenerateKeypair S er).toList = 0) ∧
      ∀ z₃, S.scalarmult er theirEph = some z₃ → S.scalarmult er theirStatic = none →
        vpnKdf1 S (vpnKdf1 S ck (vpnCryptoGenerateKeypair S er).toList) z₃.toList = 0) := by
  simp [handshakeCreateResponseProc, -bind_pure_comp]
  -- no room: nothing was written
  refine (and_iff_right fun _ => Frame.wiped_of_leaks_eq_nil rfl).trans (imp_congr_right fun _ => ?_)
  refine and_congr (imp_congr_right fun _ => ?_) (forall₂_congr fun z₃ _ => ?_)
  · -- the first exchange fails
    rw [Frame.wiped_iff_of_leaks_eq (x := .c) (by simp; decide +kernel)]
    simp
  refine (and_iff_left fun z₄ _ => ⟨fun _ _ => ?_, fun _ _ => ?_⟩).trans (imp_congr_right fun _ => ?_)
  · -- the second exchange fails
    rw [Frame.wiped_iff_of_leaks_eq (x := .c) (by simp; decide +kernel)]
    simp
  -- both succeed, and everything is wiped at the end
  all_goals exact Frame.wiped_of_leaks_eq_nil (by simp; decide +kernel)

/-- `handshake_consume_response` leaves the chaining key in `c` when an exchange fails or the tag does not open. -/
theorem handshakeConsumeResponseProc_wiped_iff (packet : List β) (myPriv : Bytes β 32) (st : HandshakeInitState β) :
    Leaves (handshakeConsumeResponseProc S junk packet myPriv st) (.fresh stack) Frame.Wiped ↔
    ∀ msg, packetParseHandshakeResp packet = .ok msg → msg.receiverIndex = st.localIndex →
      (S.scalarmult st.ephemeralPrivate msg.unencryptedEphemeral = none →
        vpnKdf1 S st.chainingKey msg.unencryptedEphemeral.toList = 0) ∧
      ∀ z₃, S.scalarmult st.ephemeralPrivate msg.unencryptedEphemeral = some z₃ →
        (S.scalarmult myPriv msg.unencryptedEphemeral = none →
          vpnKdf1 S (vpnKdf1 S st.chainingKey msg.unencryptedEphemeral.toList) z₃.toList = 0) ∧
        ∀ z₄, S.scalarmult myPriv msg.unencryptedEphemeral = some z₄ → ∀ e,
          openField S (n := 0) msg.encryptedNothing (mixHash S st.hash msg.unencryptedEphemeral.toList)
            (responseKeys S st.chainingKey msg.unencryptedEphemeral z₃ z₄).2 rfl = .error e →
          (responseKeys S st.chainingKey msg.unencryptedEphemeral z₃ z₄).1 = 0 := by
  simp [handshakeConsumeResponseProc, responseKeys, -bind_pure_comp]
  -- no response, or one for another session: nothing was written
  refine (and_iff_right fun _ _ => Frame.wiped_of_leaks_eq_nil rfl).trans (forall₂_congr fun msg _ => ?_)
  refine (and_iff_left fun _ => Frame.wiped_of_leaks_eq_nil rfl).trans (imp_congr_right fun _ => ?_)
  refine and_congr (imp_congr_right fun _ => ?_) (forall₂_congr fun z₃ _ => ?_)
  · -- the first exchange fails
    rw [Frame.wiped_iff_of_leaks_eq (x := .c) (by simp; decide +kernel)]
    simp
  refine and_congr (imp_congr_right fun _ => ?_) (forall₂_congr fun z₄ _ => ?_)
  · -- the second exchange fails
    rw [Frame.wiped_iff_of_leaks_eq (x := .c) (by simp; decide +kernel)]
    simp
  -- the tag opens, and everything is wiped at the end
  refine (and_iff_left fun _ _ => ?_).trans (forall₂_congr fun e _ => ?_)
  · exact Frame.wiped_of_leaks_eq_nil (by simp; decide +kernel)
  · -- the tag does not open
    rw [Frame.wiped_iff_of_leaks_eq (x := .c) (by simp; decide +kernel)]
    simp

/-! ### When everything is wiped -/

/-- No digest is all zero. -/
def Sodium.DigestsNonzero (S : Sodium β) : Prop := ∀ msg key, S.generichash 32 msg key ≠ zeroBytes 32

section

variable {S} {key : Bytes β 32} {input : List β}

theorem Sodium.DigestsNonzero.vpnKdf1_ne (hS : S.DigestsNonzero) : vpnKdf1 S key input ≠ 0 := hS _ _

theorem Sodium.DigestsNonzero.vpnKdf2_fst_ne (hS : S.DigestsNonzero) : (vpnKdf2 S key input).1 ≠ 0 := hS _ _

end

/-- A response goes through: neither private key of the initiator has its ephemeral key refused, and its tag opens. -/
def ResponseOpens (S : Sodium β) (myPriv : Bytes β 32) (st : HandshakeInitState β) (msg : PacketHandshakeResp β) :
    Prop :=
  ∃ z₃ z₄, S.scalarmult st.ephemeralPrivate msg.unencryptedEphemeral = some z₃ ∧
    S.scalarmult myPriv msg.unencryptedEphemeral = some z₄ ∧
    openField S msg.encryptedNothing (mixHash S st.hash msg.unencryptedEphemeral.toList)
      (responseKeys S st.chainingKey msg.unencryptedEphemeral z₃ z₄).2 encryptedNothing_length = .ok List.Vector.nil

/-- **Secrets are wiped on every way out of the initiation, and on some ways out of the response.** The buffers that
have held a DH output, a temporary key, a chaining key, an ephemeral private key or a transport key are all zero when
`handshake_create_initiation` or `handshake_consume_initiation` returns. For `handshake_create_response` it is so
when there is no room for the packet or X25519 refuses neither public key; for `handshake_consume_response` when the
datagram is not a response, or not one for this session, or goes through. If no digest is all zero, it is so in no other
case: a chaining key that is zero has not been wiped, and is not seen. -/
theorem secrets_wiped_iff [DecidableEq β] (S : Sodium β) (junk : Bytes β 32) (stack : Local → Bytes β 32) :
    (∀ (maxLen : ℕ) (myPriv myPub theirPub : Bytes β 32) (idx : BitVec 32) (ei : Bytes β 32) (tvSec tvNsec : BitVec 64),
      Leaves (handshakeCreateInitiationProc S junk maxLen myPriv myPub theirPub idx ei tvSec tvNsec) (.fresh stack)
        Frame.Wiped) ∧
    (∀ (packet : List β) (myPriv myPub : Bytes β 32) (t : PeerTable β),
      Leaves (handshakeConsumeInitiationProc S junk packet myPriv myPub t) (.fresh stack) Frame.Wiped) ∧
    (∀ (maxLen : ℕ) (theirEph theirStatic : Bytes β 32) (myIdx theirIdx : BitVec 32) (ck hash er : Bytes β 32),
      (maxLen < 92 ∨ S.scalarmult er theirEph ≠ none ∧ S.scalarmult er theirStatic ≠ none →
        Leaves (handshakeCreateResponseProc S junk maxLen theirEph theirStatic myIdx theirIdx ck hash er) (.fresh stack)
          Frame.Wiped) ∧
      (S.DigestsNonzero →
        Leaves (handshakeCreateResponseProc S junk maxLen theirEph theirStatic myIdx theirIdx ck hash er) (.fresh stack)
          Frame.Wiped →
        maxLen < 92 ∨ S.scalarmult er theirEph ≠ none ∧ S.scalarmult er theirStatic ≠ none)) ∧
    ∀ (packet : List β) (myPriv : Bytes β 32) (st : HandshakeInitState β),
      ((∀ msg, packetParseHandshakeResp packet = .ok msg → msg.receiverIndex = st.localIndex →
          ResponseOpens S myPriv st msg) →
        Leaves (handshakeConsumeResponseProc S junk packet myPriv st) (.fresh stack) Frame.Wiped) ∧
      (S.DigestsNonzero →
        Leaves (handshakeConsumeResponseProc S junk packet myPriv st) (.fresh stack) Frame.Wiped →
        ∀ msg, packetParseHandshakeResp packet = .ok msg → msg.receiverIndex = st.localIndex →
          ResponseOpens S myPriv st msg) := by
  refine ⟨handshakeCreateInitiationProc_wiped S junk stack, handshakeConsumeInitiationProc_wiped S junk stack, ?_, ?_⟩
  · intro maxLen theirEph theirStatic myIdx theirIdx ck hash er
    rw [handshakeCreateResponseProc_wiped_iff]
    constructor
    · rintro (hshort | ⟨h₃, h₄⟩) hlen
      · exact absurd hlen (Nat.not_le.mpr hshort)
      · exact ⟨fun hnone => absurd hnone h₃, fun _ _ hnone => absurd hnone h₄⟩
    · intro hS h
      refine (Nat.lt_or_ge maxLen 92).imp_right fun hlen => ?_
      obtain ⟨hfirst, hsecond⟩ := h hlen
      have h₃ : S.scalarmult er theirEph ≠ none := fun hnone => hS.vpnKdf1_ne (hfirst hnone)
      obtain ⟨z₃, hz₃⟩ := Option.ne_none_iff_exists'.mp h₃
      exact ⟨h₃, fun hnone => hS.vpnKdf1_ne (hsecond z₃ hz₃ hnone)⟩
  · intro packet myPriv st
    rw [handshakeConsumeResponseProc_wiped_iff]
    constructor
    · intro h msg hmsg hidx
      obtain ⟨z₃, z₄, h₃, h₄, hopen⟩ := h msg hmsg hidx
      simp [h₃, h₄, hopen]
    · intro hS hwiped msg hmsg hidx
      obtain ⟨hfirst, h⟩ := hwiped msg hmsg hidx
      obtain ⟨z₃, h₃⟩ := Option.ne_none_iff_exists'.mp fun hnone => hS.vpnKdf1_ne (hfirst hnone)
      obtain ⟨hsecond, htag⟩ := h z₃ h₃
      obtain ⟨z₄, h₄⟩ := Option.ne_none_iff_exists'.mp fun hnone => hS.vpnKdf1_ne (hsecond hnone)
      refine ⟨z₃, z₄, h₃, h₄, ?_⟩
      cases hopen : openField S (n := 0) msg.encryptedNothing (mixHash S st.hash msg.unencryptedEphemeral.toList)
          (responseKeys S st.chainingKey msg.unencryptedEphemeral z₃ z₄).2 rfl with
      | error e => exact absurd (htag z₄ h₄ e hopen) hS.vpnKdf2_fst_ne
      | ok m => rw [List.Vector.eq_nil m]

/-! ### A forged response -/

theorem toySodium_digestsNonzero : toySodium.DigestsNonzero := by
  intro msg key h
  -- the octets 0 and 2 of a digest differ
  have h₀ : BitVec.ofNat 8 (toyDigest msg key / 256 ^ 0 + 0) = 0#8 := congrArg (fun v => v.get 0) h
  have h₂ : BitVec.ofNat 8 (toyDigest msg key / 256 ^ 0 + 2) = 0#8 := congrArg (fun v => v.get 2) h
  rw [BitVec.ofNat_add] at h₀ h₂
  bv_omega

/-- A response to it from somebody who does not know the keys: the index is right, the tag is not. -/
def toyForgedResponse : List (BitVec 8) :=
  PacketHandshakeResp.wire ⟨1, 7, List.Vector.replicate 32 13, zeroBytes 16, zeroBytes 16, zeroBytes 16⟩

/-- The toy library with an X25519 that refuses the point zero, as libsodium does. -/
def toyRefusing : Sodium (BitVec 8) :=
  { toySodium with scalarmult := fun n p => if p = zeroBytes 32 then none else toySodium.scalarmult n p }

/-- A response made for honest keys leaves nothing. -/
theorem secrets_wiped_toy : toySodium.DigestsNonzero ∧
    Leaves (handshakeCreateResponseProc toySodium (zeroBytes 32) 92 (List.Vector.replicate 32 11) toyInitiatorPriv 1 7
      toyInitState.chainingKey toyInitState.hash (List.Vector.replicate 32 13)) (.fresh fun _ => zeroBytes 32)
      Frame.Wiped := by
  refine ⟨toySodium_digestsNonzero, ?_⟩
  obtain ⟨-, -, hcreate, -⟩ := secrets_wiped_iff toySodium (zeroBytes 32) fun _ => zeroBytes 32
  exact (hcreate _ _ _ _ _ _ _ _).1 (Or.inr ⟨Option.some_ne_none _, Option.some_ne_none _⟩)

/-- The forged response is refused and leaves the chaining key of the initiator in `c`; an initiation whose ephemeral
key is zero leaves that of the responder. -/
theorem chaining_key_left :
    ¬ Leaves (handshakeConsumeResponseProc toySodium (zeroBytes 32) toyForgedResponse toyInitiatorPriv toyInitState)
      (.fresh fun _ => zeroBytes 32) Frame.Wiped ∧
    ¬ Leaves (handshakeCreateResponseProc toyRefusing (zeroBytes 32) 92 (zeroBytes 32) toyInitiatorPriv 1 7
      toyInitState.chainingKey toyInitState.hash (List.Vector.replicate 32 13)) (.fresh fun _ => zeroBytes 32)
      Frame.Wiped := by
  constructor
  · change ¬ Frame.Wiped _
    decide +kernel
  · change ¬ Frame.Wiped _
    decide +kernel

end VpnTunnel
