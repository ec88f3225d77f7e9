import VpnTunnel.ChannelSafety
import VpnTunnel.Network

/-!
# Authentication on a hostile network

"Mutual authentication and key exchange completed in a single round trip": who is accepted as a peer is
that peer, on both sides of a handshake and for every packet after it. This module proves it for the
daemon as it is, with an attacker that is the network (`Network`), and for every interleaving of what the
attacker, the daemon and the initiators do. The static private keys of the two hosts in question are
hidden; every other private key, those of the daemon's other peers and all ephemeral keys included, may
belong to the attacker.

## The argument

The four sealed strings that are accepted, the timestamp of an initiation, the tag of a response and data
in either direction, are sealed under keys into which the secret of the two static keys was mixed. The
attacker does not have such a key (`static_secret`, `chain_secret`), so the string stood in a datagram of
an honest host (`sealed_origin`). What was sealed says which datagram that was: an initiation seals 32 and
12 octets, a response none, and data is sealed without associated data, in the two directions under keys
that differ (`transportKeys_fst_ne_snd`).

## What is proved

* `initiations_authentic` — an initiation accepted for a peer was created by that peer, for this daemon.
* `responses_authentic` — a response accepted by an initiator is one of the daemon's, for this initiator,
  and both have the same keys.
* `packets_authentic` — a packet written to the TUN device was sealed by the peer, in this session.
* `replies_authentic` — a packet an initiator opens was sealed by the daemon, in this session.
-/

namespace VpnTunnel

open Octets VpnTunnel.Symbol

/-! ### Keys the attacker does not have -/

section

variable {hidden : Set ℕ} {si sr : ℕ}

/-- The secret of two hidden private keys. -/
theorem static_secret (hsi : si ∈ hidden) (hsr : sr ∈ hidden) {a p z : Bytes Symbol 32}
    (hz : symbolicSodium.scalarmult a p = some z)
    (hends : (a = privateKey si ∧ p = publicKey sr) ∨ (a = privateKey sr ∧ p = publicKey si)) :
    ¬ Within (safeSymbols hidden) z.toList := by
  have hS := symbolicSodium_secrecy hidden
  have hout : ∀ {name : ℕ}, name ∈ hidden → ¬ Within (safeSymbols hidden) (privateKey name).toList :=
    fun hname h => within_privateKey.mp h hname
  rcases hends with ⟨rfl, rfl⟩ | ⟨rfl, rfl⟩
  · exact hS.not_within_dh hz (hout hsi) (hout hsr)
  · exact hS.not_within_dh hz (hout hsr) (hout hsi)

/-- A key is not safe when an octet of it would give away what is not. -/
theorem not_safe_of_not_within {key : Bytes Symbol 32} {input : Prop}
    (h : ∀ x ∈ key.toList, x ∈ safeSymbols hidden → input) (hinput : ¬ input) :
    ¬ (ofOctets key.toList).Safe hidden := by
  intro hsafe
  obtain ⟨x, hx⟩ := exists_mem_toList key
  exact hinput (h x hx (safe_ofOctets.mp hsafe x hx))

variable {Ei z₁ z₂ : Bytes Symbol 32} (hz₂ : ¬ Within (safeSymbols hidden) z₂.toList)

include hz₂

/-- The key of the timestamp. -/
theorem timestampKey_not_safe : ¬ (ofOctets (initiationKeys₂ symbolicSodium Ei z₁ z₂).2.toList).Safe hidden :=
  not_safe_of_not_within (fun _ hx hsafe => ((symbolicSodium_secrecy hidden).of_vpnKdf2 (.inr hx) hsafe).2) hz₂

/-- The chaining key after the initiation. -/
theorem chain_secret : ¬ Within (safeSymbols hidden) (initiationKeys₂ symbolicSodium Ei z₁ z₂).1.toList := by
  intro h
  obtain ⟨x, hx⟩ := exists_mem_toList (initiationKeys₂ symbolicSodium Ei z₁ z₂).1
  exact hz₂ ((symbolicSodium_secrecy hidden).of_vpnKdf2 (.inl hx) (h x hx)).2

end

section

variable {hidden : Set ℕ} {ck Er z₃ z₄ : Bytes Symbol 32} (hck : ¬ Within (safeSymbols hidden) ck.toList)

include hck

/-- What is derived from a chaining key in the response: the key of the tag. -/
theorem responseKey_not_safe : ¬ (ofOctets (responseKeys symbolicSodium ck Er z₃ z₄).2.toList).Safe hidden := by
  have hS := symbolicSodium_secrecy hidden
  refine not_safe_of_not_within (fun _ hx hsafe => ?_) hck
  exact (hS.of_vpnKdf1 (hS.of_vpnKdf1 (hS.of_vpnKdf2 (.inr hx) hsafe).1).1).1

/-- And the transport keys. -/
theorem transportKey_not_safe {key : Bytes Symbol 32}
    (hkey : key = (transportKeys symbolicSodium ck Er z₃ z₄).1 ∨ key = (transportKeys symbolicSodium ck Er z₃ z₄).2) :
    ¬ (ofOctets key.toList).Safe hidden := by
  have hS := symbolicSodium_secrecy hidden
  refine not_safe_of_not_within (fun x hx hsafe => ?_) hck
  have hchain : Within (safeSymbols hidden) (responseKeys symbolicSodium ck Er z₃ z₄).1.toList := by
    rcases hkey with rfl | rfl
    · exact (hS.of_vpnKdf2 (.inl hx) hsafe).1
    · exact (hS.of_vpnKdf2 (.inr hx) hsafe).1
  obtain ⟨y, hy⟩ := exists_mem_toList (responseKeys symbolicSodium ck Er z₃ z₄).1
  exact (hS.of_vpnKdf1 (hS.of_vpnKdf1 (hS.of_vpnKdf2 (.inl hy) (hchain y hy)).1).1).1

end

/-! ### What transport keys determine -/

section

variable {β : Type} [Octet β] {S : Sodium β} (hS : S.Symbolic) {ck ck' Er Er' z₃ z₃' z₄ z₄' : Bytes β 32}

include hS

/-- The two directions never have the same key. -/
theorem transportKeys_fst_ne_snd : (transportKeys S ck Er z₃ z₄).1 ≠ (transportKeys S ck' Er' z₃' z₄').2 := by
  intro h
  have hmsg := congrArg List.length (hS.generichash_inj h).2
  simp at hmsg

/-- A transport key determines everything it was derived from. -/
theorem responseKeys_fst_injective (h : (responseKeys S ck Er z₃ z₄).1 = (responseKeys S ck' Er' z₃' z₄').1) :
    ck = ck' ∧ Er = Er' ∧ z₃ = z₃' ∧ z₄ = z₄' := by
  obtain ⟨h, hz₄⟩ := vpnKdf2_fst_injective hS h
  obtain ⟨hck, hEr, hz₃⟩ := responseChain_injective hS h
  exact ⟨hck, hEr, hz₃, List.Vector.eq _ _ hz₄⟩

end

/-! ### Where a sealed string comes from -/

theorem length_eq_of_ofOctets {n k : ℕ} {u : Bytes Symbol n} {v : Bytes Symbol k}
    (h : ofOctets u.toList = ofOctets v.toList) : n = k := by
  have hlen := congrArg List.length (Symbol.ofOctets_injective h)
  rwa [u.toList_length, v.toList_length] at hlen

theorem ofOctets_toList_ne_nil {n : ℕ} {u : Bytes Symbol (n + 1)} : ofOctets u.toList ≠ nil := by
  intro h
  have hnil : u.toList = [] := Symbol.ofOctets_injective h
  have hlen := congrArg List.length hnil
  rw [u.toList_length] at hlen
  cases hlen

/-- What is sealed in an initiation, always with associated data: 32 octets, or the timestamp. -/
theorem InitiationRun.sealed_mem (run : InitiationRun symbolicSodium) {key nonce ad m : Symbol} {i : ℕ}
    (hx : sealed key nonce ad m i ∈ run.packet) : ∃ k hash : Bytes Symbol 32, key = ofOctets k.toList ∧
      ad = ofOctets hash.toList ∧ (m = ofOctets run.myPub.toList ∨ ∃ ts : Bytes Symbol 12, m = ofOctets ts.toList ∧
        ∃ msg, packetParseHandshakeInit run.packet = .ok msg ∧
          msg.encryptedTimestamp = sealField symbolicSodium ts hash k encryptedTimestamp_length) := by
  obtain ⟨-, z₁, z₂, -, -, msg, hmsg, hwire, -⟩ := handshakeCreateInitiation_eq_ok.mp run.created
  have hparse : packetParseHandshakeInit run.packet = .ok msg := by rw [hwire, packetParseHandshakeInit_wire]
  rw [hwire, hmsg] at hx
  rcases sealed_mem_initiationMsg hx with hx | hx
  · obtain ⟨hkey, had, hm⟩ := sealed_mem_sealField rfl hx
    exact ⟨_, _, hkey, had, .inl hm⟩
  · obtain ⟨hkey, had, hm⟩ := sealed_mem_sealField rfl hx
    exact ⟨_, _, hkey, had, .inr ⟨_, hm, msg, hparse, by rw [hmsg]; rfl⟩⟩

/-- What is sealed in a response, with associated data: nothing. -/
theorem ResponseRun.sealed_mem (run : ResponseRun symbolicSodium) {key nonce ad m : Symbol} {i : ℕ}
    (hx : sealed key nonce ad m i ∈ run.response.packet) : m = nil ∧ ∃ k hash : Bytes Symbol 32,
      key = ofOctets k.toList ∧ ad = ofOctets hash.toList ∧ ∃ msg,
        packetParseHandshakeResp run.response.packet = .ok msg ∧
          msg.encryptedNothing = sealField symbolicSodium List.Vector.nil hash k encryptedNothing_length := by
  obtain ⟨-, z₃, z₄, -, -, hwire, -⟩ := handshakeCreateResponse_eq_ok.mp run.created
  have hparse := congrArg packetParseHandshakeResp hwire
  rw [packetParseHandshakeResp_wire] at hparse
  rw [hwire] at hx
  obtain ⟨hkey, had, hm⟩ := sealed_mem_sealField rfl (sealed_mem_responseMsg hx)
  exact ⟨hm, _, _, hkey, had, _, hparse, rfl⟩

section

variable {hidden : Set ℕ} {sr : ℕ} {n : Network}

/-- A sealed octet the attacker has stood in a datagram, when it does not have the key. -/
theorem Secure.sealed_origin (h : Secure hidden sr n) {key nonce ad m : Symbol} {i : ℕ}
    (hx : sealed key nonce ad m i ∈ n.known) (hkey : ¬ key.Safe hidden) :
    ∃ b, n.Datagram b ∧ sealed key nonce ad m i ∈ b := by
  rcases h.known hx with hknown | hemitted
  · exact absurd (hknown.1.safe (plainKnown_emitted h.honest)) hkey
  · exact hemitted

/-! ### Initiations -/

theorem Within.take {known : Set Symbol} {l : List Symbol} (h : Within known l) (k : ℕ) : Within known (l.take k) :=
  fun x hx => h x (List.mem_of_mem_take hx)

/-- A field of a datagram that is known is known. -/
theorem within_slice {known : Set Symbol} {l : List Symbol} (h : Within known l) {off k : ℕ} (hb : off + k ≤ l.length) :
    Within known (slice l off k hb).toList := by
  rw [slice, List.Vector.toList_mk]
  exact fun x hx => h x (List.mem_of_mem_drop (List.mem_of_mem_take hx))

theorem publicKey_injective {name : ℕ} {a : Bytes Symbol 32} (h : publicKey name = symbolicSodium.scalarmultBase a) :
    a = privateKey name := by
  have hhead := congrArg List.Vector.head h
  simp only [publicKey, symbolicSodium, head_take, pub.injEq, and_true] at hhead
  exact (Symbol.ofOctets_toList_injective hhead).symm

/-- The timestamp the daemon accepts for a peer stood in an initiation of that peer. -/
theorem Secure.timestamp_origin (h : Secure hidden sr n) (hsr : sr ∈ hidden) {datagram : List Symbol}
    (hknown : Within n.known datagram) {init : ConsumedInitiation n.daemon.table}
    (hacc : handshakeConsumeInitiation symbolicSodium datagram n.daemon.staticPriv n.daemon.staticPub n.daemon.table =
      .ok init)
    {si : ℕ} (hsi : si ∈ hidden) (howner : (n.daemon.table.peers.get init.peer).publicKey = publicKey si) :
    ∃ run ∈ n.initiations, ∃ msg, packetParseHandshakeInit run.packet = .ok msg ∧
      init.parsed.encryptedTimestamp = msg.encryptedTimestamp := by
  obtain ⟨hparse, z₁, K, z₂, hopens, hfind, -⟩ := handshakeConsumeInitiation_eq_ok.mp hacc
  have hK : K = publicKey si := (peerFindByPubkey_eq_some.mp hfind).1.symm.trans howner
  have hz₂ : ¬ Within (safeSymbols hidden) z₂.toList := static_secret hsi hsr hopens.dh₂ (.inr ⟨h.priv, hK⟩)
  have hseal := sealField_of_openField symbolicSodium_symbolic hopens.timestamp
  have hfield : Within n.known init.parsed.encryptedTimestamp.toList := by
    obtain ⟨hlen, -, hmsg⟩ := packetParseHandshakeInit_eq_ok.mp hparse
    rw [hmsg]
    exact within_slice hknown (by omega)
  rw [← hseal] at hfield
  obtain ⟨b, hb, hx⟩ := h.sealed_origin (hfield _ (tag_mem_sealField _ _ _ _)) (timestampKey_not_safe hz₂)
  cases hb with
  | @initiation run hrun =>
    obtain ⟨k, hash, hkey, had, hm | ⟨ts, hts, msg, hpacket, hmsg⟩⟩ := run.sealed_mem hx
    · cases length_eq_of_ofOctets hm
    · refine ⟨run, hrun, msg, hpacket, ?_⟩
      rw [hmsg, ← hseal, Symbol.ofOctets_toList_injective hkey, Symbol.ofOctets_toList_injective had,
        Symbol.ofOctets_toList_injective hts]
  | @response i s run _ => exact absurd (run.sealed_mem hx).1 ofOctets_toList_ne_nil
  | outbound _ => exact absurd (sealed_mem_sealedPacket hx).2.2.1 ofOctets_toList_ne_nil
  | inbound _ => exact absurd (sealed_mem_sealedPacket hx).2.2.1 ofOctets_toList_ne_nil

/-! ### Responses -/

/-- The initiator of a run aimed at the daemon has a chaining key the attacker does not have. -/
theorem Secure.state_secret (h : Secure hidden sr n) (hsr : sr ∈ hidden) {run : InitiationRun symbolicSodium}
    (hrun : run ∈ n.initiations) (htheir : run.theirPub = publicKey sr) :
    ¬ Within (safeSymbols hidden) run.state.chainingKey.toList := by
  obtain ⟨⟨si, hsi, hpriv⟩, -⟩ := h.honest run hrun
  obtain ⟨z₁, z₂, -, h₂, msg, -, -, hstate⟩ := run.message
  rw [hstate]
  exact chain_secret (static_secret hsi hsr h₂ (.inl ⟨hpriv, htheir⟩))

/-- The tag an initiator accepts stood in a response of the daemon. -/
theorem Secure.tag_origin (h : Secure hidden sr n) (hsr : sr ∈ hidden) {run : InitiationRun symbolicSodium}
    (hrun : run ∈ n.initiations) (htheir : run.theirPub = publicKey sr) {b : List Symbol} (hknown : Within n.known b)
    {fin : ConsumedResponse Symbol}
    (hfin : handshakeConsumeResponse symbolicSodium b run.myPriv run.state = .ok fin) :
    ∃ msg, packetParseHandshakeResp b = .ok msg ∧ ∃ i s resp, Answered n i s resp ∧ ∃ sent,
      packetParseHandshakeResp resp.response.packet = .ok sent ∧ msg.encryptedNothing = sent.encryptedNothing := by
  obtain ⟨msg, hparse, -, z₃, z₄, -, -, hopen, -⟩ := handshakeConsumeResponse_eq_ok.mp hfin
  have hseal := sealField_of_openField symbolicSodium_symbolic hopen
  have hfield : Within n.known msg.encryptedNothing.toList := by
    obtain ⟨hlen, -, hmsg⟩ := packetParseHandshakeResp_eq_ok.mp hparse
    rw [hmsg]
    exact within_slice hknown (by omega)
  rw [← hseal] at hfield
  obtain ⟨b', hb', hx⟩ := h.sealed_origin (hfield _ (tag_mem_sealField _ _ _ _))
    (responseKey_not_safe (h.state_secret hsr hrun htheir))
  cases hb' with
  | @initiation run' _ =>
    obtain ⟨k, hash, -, -, hm | ⟨ts, hm, -⟩⟩ := run'.sealed_mem hx
    · exact absurd hm.symm ofOctets_toList_ne_nil
    · exact absurd hm.symm ofOctets_toList_ne_nil
  | @response i s resp hanswered =>
    obtain ⟨-, k, hash, hkey, had, sent, hsent, hnothing⟩ := resp.sealed_mem hx
    refine ⟨msg, hparse, i, s, resp, hanswered, sent, hsent, ?_⟩
    rw [hnothing, ← hseal, Symbol.ofOctets_toList_injective hkey, Symbol.ofOctets_toList_injective had]
  | outbound _ => exact absurd (sealed_mem_sealedPacket hx).2.2.1 ofOctets_toList_ne_nil
  | inbound _ => exact absurd (sealed_mem_sealedPacket hx).2.2.1 ofOctets_toList_ne_nil

/-! ### Data -/

/-- A packet opened under a key the attacker does not have was sealed by an honest host: by the daemon, or by
an initiator. -/
theorem Secure.packet_origin (h : Secure hidden sr n) {k : ℕ} {c m : Bytes Symbol k} {tag : Bytes Symbol 16}
    (hknown : Within n.known tag.toList) {counter : BitVec 64} {key : Bytes Symbol 32}
    (hopen : vpnCryptoAeadDecrypt symbolicSodium c tag [] counter key = .ok m)
    (hkey : ¬ (ofOctets key.toList).Safe hidden) : ∃ (s : Session Symbol) (payload : List (BitVec 8)),
      s.sendKey = key ∧ s.sendingCounter = counter ∧ payload.map ofByte = m.toList ∧
        (SealedByDaemon n s payload ∨ (s, payload) ∈ n.sent) := by
  have henc : encrypt key (vpnCryptoFormatNonce counter) [] m = (c, tag) :=
    symbolicSodium_symbolic.encrypt_of_decrypt (vpnCryptoAeadDecrypt_eq_ok.mp hopen)
  have htag : sealed (ofOctets key.toList) (ofOctets (vpnCryptoFormatNonce counter : Bytes Symbol 12).toList) nil
      (ofOctets m.toList) k ∈ tag.toList := by
    rw [← show (encrypt key (vpnCryptoFormatNonce counter) [] m).2 = tag from congrArg Prod.snd henc]
    exact mem_take.mpr ⟨0, by decide, rfl⟩
  have hpacket : ∀ {s : Session Symbol} {payload : List (BitVec 8)},
      sealed (ofOctets key.toList) (ofOctets (vpnCryptoFormatNonce counter : Bytes Symbol 12).toList) nil
        (ofOctets m.toList) k ∈ (sealedPacket symbolicSodium s (payload.map ofByte)).wire →
      s.sendKey = key ∧ s.sendingCounter = counter ∧ payload.map ofByte = m.toList := by
    intro s payload hx
    obtain ⟨hk, hnonce, -, hm⟩ := sealed_mem_sealedPacket hx
    exact ⟨(Symbol.ofOctets_toList_injective hk).symm,
      (vpnCryptoFormatNonce_injective (Symbol.ofOctets_toList_injective hnonce)).symm,
      (Symbol.ofOctets_injective hm).symm⟩
  obtain ⟨b, hb, hx⟩ := h.sealed_origin (hknown _ htag) hkey
  cases hb with
  | @initiation run _ =>
    obtain ⟨_, hash, -, had, -⟩ := run.sealed_mem hx
    exact absurd had.symm ofOctets_toList_ne_nil
  | @response _ _ run _ =>
    obtain ⟨-, _, hash, -, had, -⟩ := run.sealed_mem hx
    exact absurd had.symm ofOctets_toList_ne_nil
  | outbound hsealed =>
    obtain ⟨hk, hc, hm⟩ := hpacket hx
    exact ⟨_, _, hk, hc, hm, .inl hsealed⟩
  | inbound hsent =>
    obtain ⟨hk, hc, hm⟩ := hpacket hx
    exact ⟨_, _, hk, hc, hm, .inr hsent⟩

/-- The keys of the sessions of the two sides: what the daemon sends under is the first transport key of a
run, what an initiator sends under is the second of one. -/
theorem Secure.installed_sendKey (h : Secure hidden sr n) {i : ℕ} {s : Session Symbol} (hs : .install i s ∈ n.trace) :
    ∃ ck Er z₃ z₄, s.sendKey = (transportKeys symbolicSodium ck Er z₃ z₄).1 := by
  obtain ⟨run, hrun⟩ := h.installs i s hs
  obtain ⟨z₃, z₄, -, -, -, hsend, -⟩ := run.message
  exact ⟨_, _, z₃, z₄, hrun.keys.1.trans hsend⟩

theorem Secure.finished_sendKey (h : Secure hidden sr n) {run : InitiationRun symbolicSodium}
    {fin : ConsumedResponse Symbol} (hfin : (run, fin) ∈ n.finished) : ∃ Er z₃ z₄,
      symbolicSodium.scalarmult run.myPriv Er = some z₄ ∧
      fin.sendKey = (transportKeys symbolicSodium run.state.chainingKey Er z₃ z₄).2 ∧
      fin.recvKey = (transportKeys symbolicSodium run.state.chainingKey Er z₃ z₄).1 := by
  obtain ⟨-, b, hconsume⟩ := h.finished run fin hfin
  obtain ⟨msg, -, -, z₃, z₄, -, h₄, -, rfl⟩ := handshakeConsumeResponse_eq_ok.mp hconsume
  exact ⟨_, z₃, z₄, h₄, rfl, rfl⟩

/-! ### Authentication -/

/-- **An initiation accepted for a peer was created by that peer, for this daemon.** Whatever has happened
before, if the daemon accepts a datagram the attacker has made up for a peer whose static key is hidden,
then the peer has created an initiation for this daemon with the same ephemeral, sealed static key and
timestamp, and has the same chaining key and transcript hash. -/
theorem initiations_authentic (hidden : Set ℕ) (si sr : ℕ) (hsi : si ∈ hidden) (hsr : sr ∈ hidden) (n₀ n : Network)
    (hstart : n₀.Start hidden sr) (hreach : n₀.Reachable hidden n) (r : Recv Symbol)
    (hknown : Within n.known r.datagram)
    (init : ConsumedInitiation n.daemon.table)
    (hacc : InitiationAccepted symbolicSodium n.daemon (r.datagram.take 2048) init)
    (howner : (n.daemon.table.peers.get init.peer).publicKey = publicKey si) :
    ∃ run ∈ n.initiations, run.myPriv = privateKey si ∧ run.theirPub = publicKey sr ∧
      (∃ msg, packetParseHandshakeInit run.packet = .ok msg ∧
        init.parsed.unencryptedEphemeral = msg.unencryptedEphemeral ∧
        init.parsed.encryptedStatic = msg.encryptedStatic ∧
        init.parsed.encryptedTimestamp = msg.encryptedTimestamp) ∧
      init.timestamp = timestampBytes run.tvSec run.tvNsec ∧
      init.chainingKey = run.state.chainingKey ∧ init.hash = run.state.hash := by
  have h := Secure.reachable hstart hreach
  obtain ⟨run, hrun, msg, hmsg, hsame⟩ := h.timestamp_origin hsr (hknown.take 2048) hacc.consume hsi howner
  obtain ⟨htheir, heph, hstatic, hpub, -, hck, hhash⟩ :=
    initiation_agrees symbolicSodium_symbolic run hmsg hacc.consume hsame
  obtain ⟨-, z₁, K, z₂, hopens, -⟩ := handshakeConsumeInitiation_eq_ok.mp hacc.consume
  obtain ⟨z₁', z₂', -, -, msg', hmsg', hdef, -⟩ := run.message
  obtain rfl := Except.ok.inj (hmsg.symm.trans hmsg')
  have hstamp := sealField_of_openField symbolicSodium_symbolic hopens.timestamp
  rw [hsame, hdef] at hstamp
  refine ⟨run, hrun, ?_, htheir.trans h.pub, ⟨msg, hmsg, heph, hstatic, hsame⟩,
    (sealField_injective symbolicSodium_symbolic hstamp).2.2, hck, hhash⟩
  rw [howner, (h.honest run hrun).2] at hpub
  exact publicKey_injective hpub

/-- **A response accepted by an initiator is one of the daemon's, for this initiator**: the daemon has
installed a session for the peer with the initiator's public key, and has the initiator's keys, crosswise. -/
theorem responses_authentic (hidden : Set ℕ) (sr : ℕ) (hsr : sr ∈ hidden) (n₀ n : Network)
    (hstart : n₀.Start hidden sr) (hreach : n₀.Reachable hidden n) (run : InitiationRun symbolicSodium)
    (hrun : run ∈ n.initiations) (htheir : run.theirPub = publicKey sr) (b : List Symbol) (hknown : Within n.known b)
    (fin : ConsumedResponse Symbol)
    (hfin : handshakeConsumeResponse symbolicSodium b run.myPriv run.state = .ok fin) :
    ∃ i s, .install i s ∈ n.trace ∧ (∃ p, n.daemon.table.peers[i]? = some p ∧ p.publicKey = run.myPub) ∧
      s.sendKey = fin.recvKey ∧ s.recvKey = fin.sendKey := by
  have h := Secure.reachable hstart hreach
  obtain ⟨msg, hmsg, i, s, resp, hanswered, sent, hsent, hsame⟩ := h.tag_origin hsr hrun htheir hknown hfin
  obtain ⟨-, hhash, -, hsend, hrecv⟩ := response_agrees symbolicSodium_symbolic resp hsent hmsg hfin hsame
  obtain ⟨datagram, t, init, hconsume, howner, -, -, hhash'⟩ := hanswered.accepted
  -- the transcripts agree, so the initiation the daemon has answered is that of this run
  have hstamp : ∃ own, packetParseHandshakeInit run.packet = .ok own ∧
      init.parsed.encryptedTimestamp = own.encryptedTimestamp := by
    obtain ⟨z₁, z₂, -, -, own, hown, -, hstate⟩ := run.message
    obtain ⟨-, -, -, -, -, -, -, -, hdef⟩ := handshakeConsumeInitiation_eq_ok.mp hconsume
    rw [← hhash', hdef, hstate] at hhash
    exact ⟨own, hown, (initiationHash₂_injective symbolicSodium_symbolic hhash).2.2.2.symm⟩
  obtain ⟨own, hown, hsame'⟩ := hstamp
  obtain ⟨-, -, -, hpub, -⟩ := initiation_agrees symbolicSodium_symbolic run hown hconsume hsame'
  obtain ⟨p, hp, hkey⟩ := hanswered.owner
  exact ⟨i, s, hanswered.installed, ⟨p, hp, hkey.trans (howner.symm.trans hpub)⟩, hanswered.keys.1.trans hrecv.symm,
    hanswered.keys.2.trans hsend.symm⟩

/-- The keys the daemon has with a peer whose static key is hidden, and where they come from. -/
theorem Secure.session_secret (h : Secure hidden sr n) (hsr : sr ∈ hidden) {i : ℕ} {slot : Slot} {s : Session Symbol}
    (hs : n.daemon.table.Established i slot s) {p : Peer Symbol} (hp : n.daemon.table.peers[i]? = some p) {si : ℕ}
    (hsi : si ∈ hidden) (howner : p.publicKey = publicKey si) : ∃ ck er z₃ z₄,
      ¬ Within (safeSymbols hidden) ck.toList ∧ symbolicSodium.scalarmult er (publicKey si) = some z₄ ∧
      s.recvKey = (transportKeys symbolicSodium ck (symbolicSodium.scalarmultBase er) z₃ z₄).2 := by
  obtain ⟨s₀, hmem, -, hrecv⟩ := h.sessions i slot s hs
  obtain ⟨run, hrun⟩ := h.installs i s₀ hmem
  obtain ⟨p', hp', hkey⟩ := hrun.owner
  obtain rfl := Option.some.inj (hp.symm.trans hp')
  obtain ⟨datagram, t, init, hconsume, hinit, -, hck, -⟩ := hrun.accepted
  obtain ⟨-, z₁, K, z₂, hopens, hfind, -, hck', -⟩ := handshakeConsumeInitiation_eq_ok.mp hconsume
  obtain ⟨z₃, z₄, -, h₄, -, -, hrecv'⟩ := run.message
  have hstatic : run.theirStatic = publicKey si := hkey.symm.trans howner
  have hK : K = publicKey si := (peerFindByPubkey_eq_some.mp hfind).1.symm.trans (hinit.trans hstatic)
  have hz₂ := static_secret hsi hsr hopens.dh₂ (.inr ⟨h.priv, hK⟩)
  refine ⟨run.chainingKey, run.ephemeral, z₃, z₄, ?_, hstatic ▸ h₄, hrecv.symm.trans (hrun.keys.2.trans hrecv')⟩
  rw [← hck, hck']
  exact chain_secret hz₂

/-- **A packet written to the TUN device for a peer was sealed by that peer, in this session.** Whatever has
happened before, if the daemon writes a packet when the attacker delivers a datagram, under a key and a
counter and for a peer whose static key is hidden, then the peer has accepted a response, has the key from
it, and has sealed this packet under the key with this counter. -/
theorem packets_authentic (hidden : Set ℕ) (si sr : ℕ) (hsi : si ∈ hidden) (hsr : sr ∈ hidden) (n₀ n : Network)
    (hstart : n₀.Start hidden sr) (hreach : n₀.Reachable hidden n) (r : Recv Symbol)
    (hknown : Within n.known r.datagram)
    (i : ℕ) (key : Bytes Symbol 32) (c : BitVec 64) (packet : List Symbol)
    (hwrite : .write i key c packet ∈ (step symbolicSodium n.daemon (.udp r)).2) (p : Peer Symbol)
    (hp : n.daemon.table.peers[i]? = some p) (howner : p.publicKey = publicKey si) :
    ∃ run fin s payload, (run, fin) ∈ n.finished ∧ run.myPriv = privateKey si ∧ (s, payload) ∈ n.sent ∧
      s.sendKey = fin.sendKey ∧ fin.sendKey = key ∧ s.sendingCounter = c ∧ payload.map ofByte = packet := by
  have h := Secure.reachable hstart hreach
  obtain ⟨r', parsed, j, slot, plain, hr, hacc, -, rfl, rfl, rfl, rfl⟩ :=
    (step_cases symbolicSodium n.daemon (.udp r)).deliverable_of_write hwrite
  obtain rfl := Event.udp.inj hr
  have hs := PeerTable.established_get slot (peerFindByIndex_eq_some hacc.find).1
  obtain ⟨ck, er, z₃, z₄, hck, h₄, hrecv⟩ := h.session_secret hsr hs hp hsi howner
  have htag : Within n.known parsed.authTag.toList := by
    obtain ⟨hmin, -, -, hparsed⟩ := packetParseData_eq_ok.mp hacc.parse
    rw [hparsed]
    exact within_slice (hknown.take 2048) (by omega)
  obtain ⟨s, payload, hkey, hc, hm, horigin⟩ :=
    h.packet_origin htag hacc.opens (transportKey_not_safe hck (.inr hrecv))
  rcases horigin with ⟨⟨i', s₀, hmem, hsend⟩, -⟩ | hsent
  · -- the daemon seals under first transport keys
    obtain ⟨ck', Er', z₃', z₄', hfst⟩ := h.installed_sendKey hmem
    exact absurd (hfst.symm.trans (hsend.symm.trans (hkey.trans hrecv)))
      (transportKeys_fst_ne_snd symbolicSodium_symbolic)
  · obtain ⟨run, fin, hfin, hsend⟩ := h.sent s payload hsent
    obtain ⟨Er', z₃', z₄', h₄', hsnd, -⟩ := h.finished_sendKey hfin
    -- the two sides have derived the key from the same exchanges
    have hkeys := vpnKdf2_snd_injective symbolicSodium_symbolic (hsnd.symm.trans (hsend.symm.trans (hkey.trans hrecv)))
    obtain ⟨-, rfl, -, rfl⟩ := responseKeys_fst_injective symbolicSodium_symbolic hkeys.1
    refine ⟨run, fin, s, payload, hfin, ?_, hsent, hsend, hsend.symm.trans hkey, hc, hm⟩
    rw [symbolicSodium_scalarmult] at h₄'
    rw [publicKey, symbolicSodium_scalarmult] at h₄
    rcases Symbol.shared_injective (Option.some.inj (h₄'.trans h₄.symm)) with ⟨ha, hb⟩ | ⟨ha, -⟩
    · exact Symbol.ofOctets_toList_injective (ha.trans hb)
    · exact Symbol.ofOctets_toList_injective ha

/-- **A packet an initiator opens was sealed by the daemon, in this session.** An initiator whose run was
aimed at the daemon has accepted a response; what it then opens under its receive key, with a tag the
attacker has delivered, the daemon has encrypted under that key with that nonce. -/
theorem replies_authentic (hidden : Set ℕ) (sr : ℕ) (hsr : sr ∈ hidden) (n₀ n : Network)
    (hstart : n₀.Start hidden sr) (hreach : n₀.Reachable hidden n) (run : InitiationRun symbolicSodium)
    (fin : ConsumedResponse Symbol) (hfin : (run, fin) ∈ n.finished) (htheir : run.theirPub = publicKey sr) (k : ℕ)
    (c m : Bytes Symbol k) (tag : Bytes Symbol 16) (hknown : Within n.known tag.toList) (counter : BitVec 64)
    (hopen : vpnCryptoAeadDecrypt symbolicSodium c tag [] counter fin.recvKey = .ok m) :
    .encrypt fin.recvKey (vpnCryptoFormatNonce counter) m.toList ∈ n.trace := by
  have h := Secure.reachable hstart hreach
  obtain ⟨Er, z₃, z₄, -, -, hrecv⟩ := h.finished_sendKey hfin
  have hck := h.state_secret hsr (h.finished run fin hfin).1 htheir
  obtain ⟨s, payload, hkey, hc, hm, horigin⟩ := h.packet_origin hknown hopen (transportKey_not_safe hck (.inl hrecv))
  rcases horigin with hsealed | hsent
  · have hencrypted := hsealed.encrypted
    rwa [hkey, hc, hm] at hencrypted
  · -- initiators seal under second transport keys
    obtain ⟨run', fin', hfin', hsend⟩ := h.sent s payload hsent
    obtain ⟨Er', z₃', z₄', -, hsnd, -⟩ := h.finished_sendKey hfin'
    exact absurd (hrecv.symm.trans (hkey.symm.trans (hsend.trans hsnd)))
      (transportKeys_fst_ne_snd symbolicSodium_symbolic)

end

/-! ### A run -/

theorem length_anyRange_le : ([⟨0, 0, 0⟩] : List Cidr).length ≤ 64 := Nat.le_of_ble_eq_true rfl

/-- The initiator, whose private key is 1, as a peer that may use any address. -/
noncomputable def samplePeer : Peer Symbol :=
  { Peer.registered (publicKey 1) none with allowedIps := [⟨0, 0, 0⟩], allowedIps_le := length_anyRange_le }

/-- The daemon, whose private key is 2. -/
noncomputable def sampleDaemon : Daemon Symbol :=
  ⟨privateKey 2, publicKey 2, ⟨[samplePeer], Nat.le_of_ble_eq_true rfl, 1⟩, ⟨true, 1440⟩⟩

/-- A datagram arrives, when the daemon would draw the private key 4. -/
noncomputable def sampleRecv (b : List Symbol) : Recv Symbol := ⟨⟨.inet 51820 1, 16⟩, b, privateKey 4, 500, 500⟩

/-- Nothing has happened, and the attacker has nothing. -/
noncomputable def sampleStart : Network := ⟨sampleDaemon, [], [], [], [], ∅⟩

/-- The initiation is created. -/
noncomputable def sampleInitiated : Network :=
  { sampleStart with
    initiations := symbolicInitiator :: sampleStart.initiations
    known := sampleStart.known ∪ {x | x ∈ symbolicInitiator.packet} }

theorem sampleStart_start : sampleStart.Start {1, 2} 2 where
  priv := rfl
  pub := rfl
  noSessions := by
    refine PeerTable.noSessions_of_forall fun p hp => ?_
    obtain rfl := List.mem_singleton.mp hp
    exact ⟨nofun, nofun⟩
  trace := rfl
  initiations := rfl
  finished := rfl
  sent := rfl
  known := Set.empty_subset _

theorem sampleInitiated_reachable : sampleStart.Reachable {1, 2} sampleInitiated :=
  .single (.initiate ⟨⟨1, .inl rfl, rfl⟩, rfl⟩)

/-- The daemon accepts the initiation. -/
noncomputable def sampleConsumed : ConsumedInitiation sampleDaemon.table :=
  ⟨⟨0, Nat.zero_lt_one⟩, symbolicInitiation 7, symbolicInitiator.state.chainingKey, symbolicInitiator.state.hash,
    timestampBytes 1000 0⟩

theorem sampleInitiation_accepted :
    InitiationAccepted symbolicSodium sampleDaemon ((sampleRecv (symbolicInitiation 7).wire).datagram.take 2048)
      sampleConsumed := by
  have hdatagram : (sampleRecv (symbolicInitiation 7).wire).datagram = (symbolicInitiation 7).wire := rfl
  rw [hdatagram, take_symbolicInitiation]
  exact ⟨packetPeekType_initiation _, symbolicInitiation_consumed 7
    (peerFindByPubkey_eq_some.mpr ⟨rfl, fun _ hj => absurd hj (Nat.not_lt_zero _)⟩) rfl⟩

/-- It was created by the initiator. -/
theorem initiations_authentic_sample : ∃ run ∈ sampleInitiated.initiations, run.myPriv = privateKey 1 ∧
    run.theirPub = publicKey 2 ∧ sampleConsumed.timestamp = timestampBytes run.tvSec run.tvNsec := by
  obtain ⟨run, hrun, hpriv, htheir, -, hstamp, -⟩ := initiations_authentic {1, 2} 1 2 (.inl rfl) (.inr rfl) sampleStart
    sampleInitiated sampleStart_start sampleInitiated_reachable (sampleRecv (symbolicInitiation 7).wire)
    (fun _ hx => .inr hx) sampleConsumed sampleInitiation_accepted rfl
  exact ⟨run, hrun, hpriv, htheir, hstamp⟩

/-- The response. -/
noncomputable def sampleResponse : CreatedResponse Symbol := sampleRun.response

theorem sampleResponse_created :
    sampleDaemon.respond symbolicSodium sampleConsumed (sampleRecv (symbolicInitiation 7).wire).ephemeral =
      .ok sampleResponse :=
  sampleRun.responds

/-- The initiation has arrived. -/
noncomputable def sampleAnswered : Network := sampleInitiated.react (.udp (sampleRecv (symbolicInitiation 7).wire))

theorem sampleAnswered_reachable : sampleStart.Reachable {1, 2} sampleAnswered :=
  sampleInitiated_reachable.tail (.deliver fun _ hx => .inr hx)

/-- The peer of the daemon after the handshake. -/
noncomputable def sampleRekeyed : Peer Symbol :=
  sampleDaemon.rekeyed sampleConsumed sampleResponse (sampleRecv (symbolicInitiation 7).wire)

/-- The daemon after the handshake. -/
noncomputable def sampleResponder : Daemon Symbol :=
  { sampleDaemon with table := sampleDaemon.table.takeIndex.update sampleConsumed.peer sampleRekeyed }

theorem step_sampleInitiation : step symbolicSodium sampleDaemon (.udp (sampleRecv (symbolicInitiation 7).wire)) =
    (sampleResponder,
      [.accept sampleConsumed.peer sampleConsumed.timestamp
          ((sampleRecv (symbolicInitiation 7).wire).datagram.take 2048),
        .install sampleConsumed.peer (sampleDaemon.newSession sampleConsumed sampleResponse 500),
        .send (sampleRecv (symbolicInitiation 7).wire).src sampleResponse.packet]) := by
  rw [step, udpStep_of_initiation sampleInitiation_accepted, sampleResponse_created]
  rfl

theorem sampleAnswered_daemon : sampleAnswered.daemon = sampleResponder := by
  have hdaemon : sampleInitiated.daemon = sampleDaemon := rfl
  rw [sampleAnswered, Network.react, hdaemon, step_sampleInitiation]

theorem sampleResponse_known : Within sampleAnswered.known sampleResponse.packet := by
  intro x hx
  refine .inr ⟨(sampleRecv (symbolicInitiation 7).wire).src, sampleResponse.packet, ?_, hx⟩
  have hstep : (step symbolicSodium sampleInitiated.daemon (.udp (sampleRecv (symbolicInitiation 7).wire))).2 = _ :=
    congrArg Prod.snd step_sampleInitiation
  rw [hstep]
  exact List.mem_cons_of_mem _ (List.mem_cons_of_mem _ List.mem_cons_self)

/-- The response an initiator accepts is the daemon's. -/
theorem responses_authentic_sample : ∃ i s, .install i s ∈ sampleAnswered.trace ∧
    s.sendKey = sampleRun.finished.recvKey ∧ s.recvKey = sampleRun.finished.sendKey := by
  obtain ⟨i, s, hmem, -, hkeys⟩ := responses_authentic {1, 2} 2 (.inr rfl) sampleStart sampleAnswered sampleStart_start
    sampleAnswered_reachable symbolicInitiator List.mem_cons_self rfl sampleResponse.packet sampleResponse_known
    sampleRun.finished sampleRun.finishes
  exact ⟨i, s, hmem, hkeys⟩

/-- The response has arrived. -/
noncomputable def sampleFinished : Network :=
  { sampleAnswered with finished := (symbolicInitiator, sampleRun.finished) :: sampleAnswered.finished }

theorem sampleFinished_reachable : sampleStart.Reachable {1, 2} sampleFinished :=
  sampleAnswered_reachable.tail (.finish List.mem_cons_self sampleResponse_known sampleRun.finishes)

/-- The session of the initiator. -/
noncomputable def sampleSession : Session Symbol :=
  Session.fresh 7 1 sampleRun.finished.sendKey sampleRun.finished.recvKey 500

/-- A packet of 20 octets. -/
def samplePayload : List (BitVec 8) := List.replicate 20 1

/-- The datagram the initiator makes of it. -/
noncomputable def sampleData : List Symbol :=
  (sealedPacket symbolicSodium sampleSession (samplePayload.map ofByte)).wire

/-- The initiator seals the packet. -/
noncomputable def sampleSent : Network :=
  { sampleFinished with
    sent := (sampleSession, samplePayload) :: sampleFinished.sent
    known := sampleFinished.known ∪ {x | x ∈ sampleData} }

theorem sampleSent_reachable : sampleStart.Reachable {1, 2} sampleSent :=
  sampleFinished_reachable.tail (.send List.mem_cons_self rfl samplePayload)

theorem sampleSent_daemon : sampleSent.daemon = sampleResponder := by
  simp only [sampleSent, sampleFinished, sampleAnswered_daemon]

theorem get_sampleResponder (j : Fin sampleResponder.table.peers.length) :
    sampleResponder.table.peers.get j = sampleRekeyed := by
  obtain ⟨j, hj⟩ := j
  obtain rfl : j = 0 := Nat.lt_one_iff.mp hj
  rfl

theorem sampleSession_counterpart :
    Counterpart sampleSession sampleResponder.table ⟨0, Nat.zero_lt_one⟩ .current := by
  have hcurrent : sampleRekeyed.currentSession = sampleDaemon.newSession sampleConsumed sampleResponse 500 :=
    Daemon.current_rekeyed
  refine ⟨by decide, ?_, ?_, ?_, ?_, ?_⟩
  · rw [get_sampleResponder, Peer.session, hcurrent]
    rfl
  · rw [get_sampleResponder, Peer.session, hcurrent]
    rfl
  · intro j slot hest _
    refine ⟨Fin.ext (Nat.lt_one_iff.mp j.isLt), ?_⟩
    rw [get_sampleResponder] at hest
    rcases Daemon.session_rekeyed hest with ⟨hslot, -⟩ | ⟨rfl, slot', hold⟩
    · exact hslot
    · rw [show sampleRekeyed.session .previous = _ from hold] at hest
      cases slot' <;> cases hest
  · rw [get_sampleResponder, Peer.session, hcurrent]
    rfl
  · rw [get_sampleResponder, Peer.session, hcurrent]
    decide

theorem config_sampleRekeyed : sampleRekeyed.config = (publicKey 1, [⟨0, 0, 0⟩]) := Daemon.config_rekeyed

theorem sampleRekeyed_allows (ip : BitVec 32) : peerAllowsSourceIp sampleRekeyed ip = true := by
  have hranges : sampleRekeyed.allowedIps = [⟨0, 0, 0⟩] := congrArg Prod.snd config_sampleRekeyed
  rw [peerAllowsSourceIp, hranges]
  simp [vpnCidrMatch]

theorem sampleData_written :
    .write 0 sampleSession.sendKey 0 (samplePayload.map ofByte) ∈
      (step symbolicSodium sampleSent.daemon (.udp (sampleRecv sampleData))).2 := by
  have hlen : (samplePayload.map (ofByte : BitVec 8 → Symbol)).length ≤ 1440 := Nat.le_of_ble_eq_true rfl
  obtain ⟨plain, hacc, hplain⟩ :=
    sampleSession_counterpart.dataAccepted (b := samplePayload.map ofByte) symbolicSodium_correct.decrypt_encrypt hlen
  have htake : (sampleRecv sampleData).datagram.take 2048 = sampleData := take_sealedPacket hlen
  rw [← show sampleData = (sealedPacket symbolicSodium sampleSession (samplePayload.map ofByte)).wire from rfl, ← htake]
    at hacc
  have hstep := udpStep_of_data hacc
  have hdeliver : Deliverable sampleResponder.tun (sampleResponder.table.peers.get ⟨0, Nat.zero_lt_one⟩)
      (samplePayload.map ofByte) := by
    refine ⟨rfl, Nat.le_of_ble_eq_true rfl, hlen, ?_⟩
    rw [get_sampleResponder]
    exact sampleRekeyed_allows _
  rw [sampleSent_daemon, step, hstep, hplain, deliver_of_deliverable hdeliver, sampleSession_counterpart.key]
  exact List.mem_singleton_self _

/-- The packet the daemon writes was sealed by the initiator. -/
theorem packets_authentic_sample : ∃ run fin s payload, (run, fin) ∈ sampleSent.finished ∧
    run.myPriv = privateKey 1 ∧ (s, payload) ∈ sampleSent.sent ∧ s.sendKey = fin.sendKey ∧
    payload.map ofByte = samplePayload.map (ofByte : BitVec 8 → Symbol) := by
  have hpeer : sampleSent.daemon.table.peers[0]? = some sampleRekeyed := by
    rw [sampleSent_daemon]
    rfl
  obtain ⟨run, fin, s, payload, hfin, hpriv, hsent, hkey, -, -, hpayload⟩ := packets_authentic {1, 2} 1 2 (.inl rfl)
    (.inr rfl) sampleStart sampleSent sampleStart_start sampleSent_reachable (sampleRecv sampleData)
    (fun _ hx => .inr hx) 0 sampleSession.sendKey 0 (samplePayload.map ofByte) sampleData_written sampleRekeyed hpeer
    (congrArg Prod.fst config_sampleRekeyed)
  exact ⟨run, fin, s, payload, hfin, hpriv, hsent, hkey, hpayload⟩

/-- The daemon reads a packet for the initiator. -/
noncomputable def sampleReply : Network := sampleSent.react (.tun (samplePayload.map ofByte))

theorem sampleReply_reachable : sampleStart.Reachable {1, 2} sampleReply :=
  sampleSent_reachable.tail (.read samplePayload)

theorem sampleReply_routed : Routed sampleResponder ((samplePayload.map (ofByte : BitVec 8 → Symbol)).take 2048)
    ⟨0, Nat.zero_lt_one⟩ := by
  refine ⟨rfl, Nat.le_of_ble_eq_true rfl, peerFindByDestIp_eq_some.mpr ⟨?_, fun _ hj => ?_⟩,
    sampleSession_counterpart.established⟩
  · rw [get_sampleResponder]
    exact sampleRekeyed_allows _
  · exact absurd hj (Nat.not_lt_zero _)

/-- What the daemon makes of it. -/
noncomputable def sampleSealed : PacketData Symbol :=
  sealedPacket symbolicSodium sampleRekeyed.currentSession (samplePayload.map ofByte)

theorem sampleSealed_sent : .send sampleRekeyed.endpoint sampleSealed.wire ∈
    (step symbolicSodium sampleResponder (.tun (samplePayload.map ofByte))).2 := by
  have hlen : (samplePayload.map (ofByte : BitVec 8 → Symbol)).length ≤ 1440 := Nat.le_of_ble_eq_true rfl
  have htake : (samplePayload.map (ofByte : BitVec 8 → Symbol)).take 2048 = samplePayload.map ofByte :=
    List.take_of_length_le (Nat.le_of_ble_eq_true rfl)
  have hstep := congrArg Prod.snd (tunStep_of_routed (S := symbolicSodium) sampleReply_routed)
  rw [step, hstep, htake, get_sampleResponder, sendSealed_ok hlen]
  exact List.mem_cons_of_mem _ List.mem_cons_self

theorem sampleSealed_known : Within sampleReply.known sampleSealed.wire := fun _ hx =>
  .inr ⟨sampleRekeyed.endpoint, sampleSealed.wire, sampleSent_daemon ▸ sampleSealed_sent, hx⟩

/-- What the initiator opens was encrypted by the daemon. -/
theorem replies_authentic_sample : .encrypt sampleRun.finished.recvKey (vpnCryptoFormatNonce 0)
    (samplePayload.map ofByte) ∈ sampleReply.trace := by
  have hsession : sampleRekeyed.currentSession = sampleDaemon.newSession sampleConsumed sampleResponse 500 :=
    Daemon.current_rekeyed
  have htag : Within sampleReply.known sampleSealed.authTag.toList := fun x hx => by
    refine sampleSealed_known x ?_
    simp only [PacketData.wire, List.mem_append]
    tauto
  rw [sampleSealed, hsession] at htag
  have hencrypt := replies_authentic {1, 2} 2 (.inr rfl) sampleStart sampleReply sampleStart_start sampleReply_reachable
    symbolicInitiator sampleRun.finished List.mem_cons_self rfl _ _ (ofList (samplePayload.map ofByte)) _ htag 0
    (Sodium.AeadInverts.aeadDecrypt_aeadEncrypt symbolicSodium_correct.decrypt_encrypt _ _ _ _)
  rwa [toList_ofList] at hencrypt

end VpnTunnel
