import VpnTunnel.SymbolicSodium

/-!
# Agreement under tampering

The network may replace any datagram of a handshake by any other, mixing parts of parallel
handshakes as it likes. This module asks what the two sides still agree on when a message is
accepted, in the symbolic reading of the library, in which digests and ciphertexts are terms.

## The argument

An accepted message has a sealed field, and that field was sealed by somebody. Seals are injective, so
both sides sealed and opened it under the same key and the same transcript hash; and the key schedule
is injective, so the chain of digests can be taken apart on both sides at once, one `mix_hash` or key
derivation after the other, down to the protocol label. Each thing that was mixed in is then the same
on both sides. What is not mixed in, the session indices, is not covered.

## What is proved

* `initiationHash₂_injective`, `initiationKeys₂_snd_injective`, `responseKeys_snd_injective` — what the
  transcripts and keys determine.
* `transcripts_agree` — an accepted initiation whose timestamp was sealed by a run of
  `handshake_create_initiation` agrees with that run, and an accepted response whose tag was made by a
  run of `handshake_create_response` agrees with that run, keys included.
-/

namespace VpnTunnel

open Octets

variable {β : Type} [Octet β] {S : Sodium β}

/-! ### What the transcripts and keys determine -/

section

variable {hash hash' Sr Sr' Ei Ei' Er Er' ck ck' z₁ z₁' z₂ z₂' z₃ z₃' z₄ z₄' : Bytes β 32}
  {es es' : Bytes β 48} {et et' : Bytes β 28} (hS : S.Symbolic)

include hS

omit [Octet β] in
/-- Mixing in a field loses neither the transcript nor the field. -/
theorem mixHash_injective {n : ℕ} {data data' : Bytes β n} (hn : n ≤ 256)
    (h : mixHash S hash data.toList = mixHash S hash' data'.toList) : hash = hash' ∧ data = data' := by
  have hlen : ∀ data : Bytes β n, ¬ data.toList.length > 256 := fun data => by rw [data.toList_length]; omega
  rw [mixHash, if_neg (hlen data), mixHash, if_neg (hlen data')] at h
  obtain ⟨hhash, hdata⟩ := List.append_inj (vpnCryptoHash_injective hS h) (by simp)
  exact ⟨List.Vector.eq _ _ hhash, List.Vector.eq _ _ hdata⟩

theorem initiationHash₀_injective (h : initiationHash₀ S Sr Ei = initiationHash₀ S Sr' Ei') : Sr = Sr' ∧ Ei = Ei' := by
  obtain ⟨h, hEi⟩ := mixHash_injective hS (by decide) h
  exact ⟨(mixHash_injective hS (by decide) h).2, hEi⟩

theorem initiationHash₁_injective (h : initiationHash₁ S Sr Ei es = initiationHash₁ S Sr' Ei' es') :
    Sr = Sr' ∧ Ei = Ei' ∧ es = es' := by
  obtain ⟨h, hes⟩ := mixHash_injective hS (by decide) h
  obtain ⟨hSr, hEi⟩ := initiationHash₀_injective hS h
  exact ⟨hSr, hEi, hes⟩

theorem initiationHash₂_injective (h : initiationHash₂ S Sr Ei es et = initiationHash₂ S Sr' Ei' es' et') :
    Sr = Sr' ∧ Ei = Ei' ∧ es = es' ∧ et = et' := by
  obtain ⟨h, het⟩ := mixHash_injective hS (by decide) h
  obtain ⟨hSr, hEi, hes⟩ := initiationHash₁_injective hS h
  exact ⟨hSr, hEi, hes, het⟩

theorem initiationKeys₂_snd_injective (h : (initiationKeys₂ S Ei z₁ z₂).2 = (initiationKeys₂ S Ei' z₁' z₂').2) :
    z₁ = z₁' ∧ z₂ = z₂' := by
  obtain ⟨h, hz₂⟩ := vpnKdf2_snd_injective hS h
  obtain ⟨-, hz₁⟩ := vpnKdf2_fst_injective hS h
  exact ⟨List.Vector.eq _ _ hz₁, List.Vector.eq _ _ hz₂⟩

/-- The chain of the response loses nothing before its last exchange. -/
theorem responseChain_injective (h : vpnKdf1 S (vpnKdf1 S ck Er.toList) z₃.toList =
    vpnKdf1 S (vpnKdf1 S ck' Er'.toList) z₃'.toList) : ck = ck' ∧ Er = Er' ∧ z₃ = z₃' := by
  obtain ⟨h, hz₃⟩ := vpnKdf1_injective hS h
  obtain ⟨hck, hEr⟩ := vpnKdf1_injective hS h
  exact ⟨hck, List.Vector.eq _ _ hEr, List.Vector.eq _ _ hz₃⟩

theorem responseKeys_snd_injective (h : (responseKeys S ck Er z₃ z₄).2 = (responseKeys S ck' Er' z₃' z₄').2) :
    ck = ck' ∧ Er = Er' ∧ z₃ = z₃' ∧ z₄ = z₄' := by
  obtain ⟨h, hz₄⟩ := vpnKdf2_snd_injective hS h
  obtain ⟨hck, hEr, hz₃⟩ := responseChain_injective hS h
  exact ⟨hck, hEr, hz₃, List.Vector.eq _ _ hz₄⟩

end

/-! ### Agreement -/

section

variable [DecidableEq β] {datagram : List β} {priv pub : Bytes β 32} {t : PeerTable β} {init : ConsumedInitiation t}

/-- **An accepted initiation agrees with the run that sealed its timestamp**: on the responder, the
ephemeral, the sealed static key and its owner, the secret of the two static keys, and on what both
sides keep. -/
theorem initiation_agrees (hS : S.Symbolic) (run : InitiationRun S) {msg : PacketHandshakeInit β}
    (hmsg : packetParseHandshakeInit run.packet = .ok msg)
    (haccept : handshakeConsumeInitiation S datagram priv pub t = .ok init)
    (hsame : init.parsed.encryptedTimestamp = msg.encryptedTimestamp) :
    run.theirPub = pub ∧ init.parsed.unencryptedEphemeral = msg.unencryptedEphemeral ∧
      init.parsed.encryptedStatic = msg.encryptedStatic ∧ (t.peers.get init.peer).publicKey = run.myPub ∧
      S.scalarmult priv run.myPub = S.scalarmult run.myPriv pub ∧
      init.chainingKey = run.state.chainingKey ∧ init.hash = run.state.hash := by
  obtain ⟨z₁', z₂', -, h₂', msg', hparse', hmsg', hstate⟩ := run.message
  cases hparse'.symm.trans hmsg
  obtain ⟨-, z₁, theirStatic, z₂, hopens, hfind, -, hck, hhash⟩ := handshakeConsumeInitiation_eq_ok.mp haccept
  -- both sides sealed the timestamp, under one key and one transcript
  have hseal := sealField_of_openField hS hopens.timestamp
  have htimestamp : msg.encryptedTimestamp = sealField S (timestampBytes run.tvSec run.tvNsec)
      (initiationHash₁ S run.theirPub msg.unencryptedEphemeral msg.encryptedStatic)
      (initiationKeys₂ S msg.unencryptedEphemeral z₁' z₂').2 rfl := by rw [hmsg']; rfl
  rw [hsame, htimestamp] at hseal
  obtain ⟨hkey, htranscript, -⟩ := sealField_injective hS hseal
  obtain ⟨hpub, heph, hes⟩ := initiationHash₁_injective hS htranscript
  obtain ⟨hz₁, hz₂⟩ := initiationKeys₂_snd_injective hS hkey
  subst hz₁ hz₂
  -- so they sealed the static key alike
  have hstatic := sealField_of_openField hS hopens.static
  have hencrypted : msg.encryptedStatic = sealField S run.myPub
      (initiationHash₀ S run.theirPub msg.unencryptedEphemeral) (initiationKeys₁ S msg.unencryptedEphemeral z₁).2
      rfl := by rw [hmsg']; rfl
  rw [hes, hencrypted] at hstatic
  have howner := (sealField_injective hS hstatic).2.2
  refine ⟨hpub.symm, heph, hes, (peerFindByPubkey_eq_some.mp hfind).1.trans howner, ?_, ?_, ?_⟩
  · rw [← howner, hopens.dh₂, hpub, h₂']
  · rw [hck, hstate, heph]
    rfl
  · rw [hhash, hstate, hpub, heph, hes, hsame]
    rfl

end

section

variable {datagram : List β} {myPriv : Bytes β 32} {st : HandshakeInitState β} {fin : ConsumedResponse β}
  {msg sent : PacketHandshakeResp β}

/-- **An accepted response agrees with the run that made its tag**: on the responder's ephemeral, the
transcript and chaining key of the initiation, and the transport keys, crosswise. -/
theorem response_agrees (hS : S.Symbolic) (run : ResponseRun S)
    (hsent : packetParseHandshakeResp run.response.packet = .ok sent)
    (hmsg : packetParseHandshakeResp datagram = .ok msg)
    (haccept : handshakeConsumeResponse S datagram myPriv st = .ok fin)
    (hsame : msg.encryptedNothing = sent.encryptedNothing) :
    msg.unencryptedEphemeral = sent.unencryptedEphemeral ∧ st.hash = run.hash ∧ st.chainingKey = run.chainingKey ∧
      fin.sendKey = run.response.recvKey ∧ fin.recvKey = run.response.sendKey := by
  obtain ⟨z₃', z₄', -, -, hsent', hsend, hrecv⟩ := run.message
  cases hsent'.symm.trans hsent
  obtain ⟨msg', hmsg', -, z₃, z₄, -, -, hopen, hfin⟩ := handshakeConsumeResponse_eq_ok.mp haccept
  cases hmsg'.symm.trans hmsg
  have htag := sealField_of_openField hS hopen
  rw [hsame] at htag
  obtain ⟨hkey, htranscript, -⟩ := sealField_injective hS htag
  obtain ⟨hhash, -⟩ := mixHash_injective hS (by decide) htranscript
  obtain ⟨hck, heph, hz₃, hz₄⟩ := responseKeys_snd_injective hS hkey
  subst hz₃ hz₄
  refine ⟨heph, hhash, hck, ?_, ?_⟩
  · rw [hfin, hrecv, hck, heph]
  · rw [hfin, hsend, hck, heph]

end

/-- Transcripts of initiations that agree are of the same initiation. -/
theorem InitiationRun.hash_agrees [DecidableEq β] (hS : S.Symbolic) (run : InitiationRun S) {datagram : List β}
    {priv pub : Bytes β 32} {t : PeerTable β} {init : ConsumedInitiation t}
    (hconsume : handshakeConsumeInitiation S datagram priv pub t = .ok init) (hhash : init.hash = run.state.hash) :
    run.theirPub = pub ∧ init.parsed.unencryptedEphemeral = S.scalarmultBase run.ephemeral := by
  obtain ⟨z₁, z₂, -, -, msg, -, hmsg, hstate⟩ := run.message
  obtain ⟨-, -, -, -, -, -, -, -, hhash'⟩ := handshakeConsumeInitiation_eq_ok.mp hconsume
  rw [hhash', hstate] at hhash
  obtain ⟨hpub, heph, -⟩ := initiationHash₂_injective hS hhash
  exact ⟨hpub.symm, by rw [heph, hmsg]; rfl⟩

/-- **The two sides agree, whatever the network delivers.** First, if a responder accepts a datagram whose
encrypted timestamp was sealed by a run of `handshake_create_initiation`, that run was aimed at this
responder, used the same ephemeral and sealed static key, belongs to the owner of the peer's public
key, and left the initiator with the same chaining key and transcript hash. Second, if an initiator
accepts a datagram whose tag was made by a run of `handshake_create_response`, the two have the same
responder ephemeral, transcript and chaining key, and the same keys crosswise; and they have the same
initiator ephemeral, if that run was made for an initiation the responder had accepted. -/
theorem transcripts_agree [DecidableEq β] (S : Sodium β) (hS : S.Symbolic) :
    (∀ (run : InitiationRun S) (msg : PacketHandshakeInit β), packetParseHandshakeInit run.packet = .ok msg →
      ∀ (datagram : List β) (priv pub : Bytes β 32) (t : PeerTable β) (init : ConsumedInitiation t),
        handshakeConsumeInitiation S datagram priv pub t = .ok init →
        init.parsed.encryptedTimestamp = msg.encryptedTimestamp →
        run.theirPub = pub ∧ init.parsed.unencryptedEphemeral = msg.unencryptedEphemeral ∧
          init.parsed.encryptedStatic = msg.encryptedStatic ∧ (t.peers.get init.peer).publicKey = run.myPub ∧
          S.scalarmult priv run.myPub = S.scalarmult run.myPriv pub ∧
          init.chainingKey = run.state.chainingKey ∧ init.hash = run.state.hash) ∧
    (∀ (run : ResponseRun S) (sent : PacketHandshakeResp β), packetParseHandshakeResp run.response.packet = .ok sent →
      ∀ (initiator : InitiationRun S) (datagram : List β) (fin : ConsumedResponse β) (msg : PacketHandshakeResp β),
        handshakeConsumeResponse S datagram initiator.myPriv initiator.state = .ok fin →
        packetParseHandshakeResp datagram = .ok msg → msg.encryptedNothing = sent.encryptedNothing →
        (msg.unencryptedEphemeral = sent.unencryptedEphemeral ∧ initiator.state.hash = run.hash ∧
          initiator.state.chainingKey = run.chainingKey ∧
          fin.sendKey = run.response.recvKey ∧ fin.recvKey = run.response.sendKey) ∧
        ∀ (initiation : List β) (priv pub : Bytes β 32) (t : PeerTable β) (init : ConsumedInitiation t),
          handshakeConsumeInitiation S initiation priv pub t = .ok init →
          run.theirEphemeral = init.parsed.unencryptedEphemeral → run.hash = init.hash →
          run.theirEphemeral = S.scalarmultBase initiator.ephemeral ∧ initiator.theirPub = pub) := by
  refine ⟨fun run msg hmsg datagram priv pub t init haccept hsame => initiation_agrees hS run hmsg haccept hsame,
    fun run sent hsent initiator datagram fin msg haccept hmsg hsame => ?_⟩
  have hagree := response_agrees hS run hsent hmsg haccept hsame
  refine ⟨hagree, fun initiation priv pub t init hconsume heph hhash => ?_⟩
  obtain ⟨hpub, heph'⟩ := initiator.hash_agrees hS hconsume (hhash.symm.trans hagree.2.1.symm)
  exact ⟨heph.trans heph', hpub⟩

/-- In the symbolic library the responder accepts the initiation with its sender index changed, and the
initiator the response made for it; they agree, on the ephemeral of the initiator too. -/
theorem transcripts_agree_symbolic :
    (∃ init : ConsumedInitiation symbolicTable,
      handshakeConsumeInitiation symbolicSodium (symbolicInitiation 8).wire (privateKey 2) (publicKey 2)
        symbolicTable = .ok init ∧
      init.chainingKey = symbolicInitiator.state.chainingKey ∧ init.hash = symbolicInitiator.state.hash) ∧
    ∃ fin, handshakeConsumeResponse symbolicSodium symbolicResponder.response.packet (privateKey 1)
        symbolicInitiator.state = .ok fin ∧
      fin.sendKey = symbolicResponder.response.recvKey ∧ fin.recvKey = symbolicResponder.response.sendKey ∧
      symbolicResponder.theirEphemeral = symbolicSodium.scalarmultBase symbolicInitiator.ephemeral ∧
      symbolicInitiator.theirPub = publicKey 2 := by
  obtain ⟨hinitiations, hresponses⟩ := transcripts_agree symbolicSodium symbolicSodium_symbolic
  have hinit := symbolicInitiation_accepted 8
  have hfin := symbolicResponse_accepted 1
  obtain ⟨-, -, -, -, -, hck, hhash⟩ :=
    hinitiations symbolicInitiator _ (packetParseHandshakeInit_wire _) _ _ _ _ _ hinit rfl
  obtain ⟨⟨-, -, -, hsend, hrecv⟩, hephemeral⟩ := hresponses symbolicResponder _ (packetParseHandshakeResp_wire _)
    symbolicInitiator _ _ _ hfin (packetParseHandshakeResp_wire _) rfl
  obtain ⟨heph, hpub⟩ := hephemeral _ _ _ _ _ hinit rfl rfl
  exact ⟨⟨_, hinit, hck, hhash⟩, _, hfin, hsend, hrecv, heph, hpub⟩

end VpnTunnel
