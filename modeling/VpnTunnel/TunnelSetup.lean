import VpnTunnel.HonestHandshake
import VpnTunnel.Libsodium.Aead
import VpnTunnel.Tunnel

/-!
# From a handshake to a tunnel

A host takes an index, creates an initiation and sends it to another host that runs the daemon; the daemon answers,
and the host consumes the response and installs the session with `peer_init_session`. This module proves that the two
then have a link, and puts everything together, from the handshake down to the octets of ChaCha20 and Poly1305.

## The model

The daemon is a step of the event loop. The initiator runs the functions of `src/handshake.c` and `src/peer.c` one
after the other, on its own peer table and keys, as `tests/test_handshake.c` does (`src/main.c` never starts a
handshake); from then on it runs the event loop too.

## What is proved

* `Introduced.joins` — a handshake that is not disturbed gives the two hosts a link.
* `handshake_tunnel` — with the encryption of the libsodium in `deps/`, two hosts that can exchange keys become a
  pair of channels.
-/

namespace VpnTunnel

open Octets OneTime

variable {β : Type} [Octet β]

/-- The host that initiated, once it has consumed the response: it has taken an index, and installs the session. -/
def Daemon.initiated (a : Daemon β) (i : Fin a.table.peers.length) (fin : ConsumedResponse β) (now now' : BitVec 64) :
    Daemon β :=
  { a with
    table := a.table.takeIndex.update i (peerInitSession (a.table.peers.get i) a.table.nextLocalIndex fin.peerIndex
      fin.sendKey fin.recvKey now now') }

section

variable {t : PeerTable β} {i : Fin t.peers.length} {localIdx peerIdx : BitVec 32} {sendKey recvKey : Bytes β 32}
  {now now' : BitVec 64}

/-- The sessions in use after a session was installed for a peer: the new one, one the peer had, and those of the
others. -/
theorem PeerTable.established_initSession {j : ℕ} {slot : Slot} {s : Session β}
    (h : (t.takeIndex.update i
      (peerInitSession (t.peers.get i) localIdx peerIdx sendKey recvKey now now')).Established j slot s) :
    (j = i ∧ slot = .current ∧ s = Session.fresh localIdx peerIdx sendKey recvKey now) ∨
      (j = i ∧ slot = .previous ∧ ∃ slot', t.Established j slot' s) ∨ (j ≠ i ∧ t.Established j slot s) := by
  rcases PeerTable.established_update.mp h with ⟨hj, hs, hest⟩ | ⟨hj, h⟩
  · subst hs
    rcases established_peerInitSession _ _ _ _ _ _ _ hest with ⟨hslot, hnew⟩ | ⟨hslot, slot', hold⟩
    · exact .inl ⟨hj, hslot, hnew⟩
    · rw [hold] at hest ⊢
      exact .inr (.inl ⟨hj, hslot, slot', hj ▸ PeerTable.established_get _ hest⟩)
  · exact .inr (.inr ⟨hj, h⟩)

/-- A session with the next index keeps the indices apart. -/
theorem indexInv_initSession (hinv : IndexInv t) (hnext : t.nextLocalIndex ≠ 0) :
    IndexInv (t.takeIndex.update i
      (peerInitSession (t.peers.get i) t.nextLocalIndex peerIdx sendKey recvKey now now')) := by
  obtain ⟨issued, hinv, hout⟩ := hinv
  have hfresh : (indexView (Session.fresh t.nextLocalIndex peerIdx sendKey recvKey now)).key ∉ issued :=
    fun hmem => (hout _ hmem).ne hnext rfl
  refine ⟨_, inv_install hinv hfresh (↑i, Slot.current)
    (fun a b => a.1 = b.1 ∧ (a.1 = i → a.2 = .previous) ∧ (a.1 ≠ i → a.2 = b.2)) ?_ ?_, fun idx hidx => ?_⟩
  · rintro ⟨j, slot⟩ ⟨j', slot'⟩ ⟨_, slot''⟩ ⟨rfl, hsame, hother⟩ ⟨rfl, hsame', hother'⟩
    by_cases hj : j' = i
    · rw [Prod.mk.injEq]
      exact ⟨rfl, (hsame hj).trans (hsame' hj).symm⟩
    · rw [Prod.mk.injEq]
      exact ⟨rfl, (hother hj).trans (hother' hj).symm⟩
  · rintro ⟨j, slot⟩ s hs
    rcases PeerTable.established_initSession hs with ⟨rfl, rfl, rfl⟩ | ⟨rfl, rfl, slot', hs⟩ | ⟨hj, hs⟩
    · exact .inl ⟨rfl, rfl⟩
    · exact .inr ⟨(_, slot'), ⟨rfl, fun _ => rfl, fun h => absurd rfl h⟩, hs⟩
    · exact .inr ⟨(j, slot), ⟨rfl, fun h => absurd h hj, fun _ => rfl⟩, hs⟩
  · rcases List.mem_append.mp hidx with hidx | hidx
    · exact (hout idx hidx).add_one hnext
    · rw [List.mem_singleton.mp hidx]
      exact givenOut_self hnext

end

/-- Two hosts that can set up a session, `a` with private ephemeral `ei` and `b` with `er`: each has the public key
of the other, the time of the initiation is past the one `b` remembers, no exchange fails, and both have an index
to give out. -/
structure Introduced [DecidableEq β] (S : Sodium β) (a b : Daemon β) (i : Fin a.table.peers.length)
    (j : Fin b.table.peers.length) (ei er : Bytes β 32) (tvSec : BitVec 64) : Prop where
  /-- The public key of `a` belongs to its private key. -/
  ownA : a.staticPub = S.scalarmultBase a.staticPriv
  /-- So does that of `b`. -/
  ownB : b.staticPub = S.scalarmultBase b.staticPriv
  /-- `b` is the `i`-th peer of `a`. -/
  knows : (a.table.peers.get i).publicKey = b.staticPub
  /-- `a` is the `j`-th peer of `b`. -/
  known : peerFindByPubkey b.table a.staticPub = some j
  /-- The initiation is not too old. -/
  inTime : InTime (b.table.peers.get j).lastHandshakeTime tvSec
  /-- The first exchange of the initiation. -/
  dh₁ : S.scalarmult ei b.staticPub ≠ none
  /-- The second one. -/
  dh₂ : S.scalarmult a.staticPriv b.staticPub ≠ none
  /-- The first exchange of the response. -/
  dh₃ : S.scalarmult er (S.scalarmultBase ei) ≠ none
  /-- The second one. -/
  dh₄ : S.scalarmult er a.staticPub ≠ none
  /-- The indices of `a` name sessions. -/
  invA : IndexInv a.table
  /-- So do those of `b`. -/
  invB : IndexInv b.table
  /-- `a` has an index to give out. -/
  roomA : a.table.nextLocalIndex ≠ 0
  /-- So has `b`. -/
  roomB : b.table.nextLocalIndex ≠ 0

/-- Two hosts as the two sides. -/
def Side.pair {α : Type} (x y : α) : Side → α
  | .a => x
  | .b => y

section

variable [DecidableEq β] {S : Sodium β} {a b : Daemon β} {i : Fin a.table.peers.length} {j : Fin b.table.peers.length}
  {ei er : Bytes β 32} {tvSec : BitVec 64}

/-- The link of two sessions that were installed with each other's index and key. -/
def Link.between (i j : ℕ) (idx idx' : BitVec 32) (key key' : Bytes β 32) (now now' : BitVec 64) : Link β where
  peer := Side.pair i j
  start := Side.pair (Session.fresh idx idx' key key' now) (Session.fresh idx' idx key' key now')
  established s := by cases s <;> rfl
  index s := by cases s <;> rfl
  key s := by cases s <;> rfl
  counter s := by cases s <;> rfl
  filter s := by cases s <;> rfl

/-- The initiation is created, and `b` accepts it. -/
theorem Introduced.accepted (hS : S.Correct) (h : Introduced S a b i j ei er tvSec) (tvNsec : BitVec 64) :
    ∃ msg st, handshakeCreateInitiation S 148 a.staticPriv a.staticPub (a.table.peers.get i).publicKey
        a.table.nextLocalIndex ei tvSec tvNsec = .ok (msg.wire, st) ∧
      InitiationAccepted S b msg.wire ⟨j, msg, st.chainingKey, st.hash, timestampBytes tvSec tvNsec⟩ ∧
      msg.unencryptedEphemeral = S.scalarmultBase ei ∧ msg.senderIndex = a.table.nextLocalIndex ∧
      st.ephemeralPrivate = ei ∧ st.localIndex = a.table.nextLocalIndex := by
  obtain ⟨z₁, h₁⟩ := Option.ne_none_iff_exists'.mp h.dh₁
  obtain ⟨z₂, h₂⟩ := Option.ne_none_iff_exists'.mp h.dh₂
  obtain ⟨msg, hmsg⟩ : ∃ msg, msg = initiationMsg S a.staticPub b.staticPub a.table.nextLocalIndex
    (S.scalarmultBase ei) (timestampBytes tvSec tvNsec) z₁ z₂ := ⟨_, rfl⟩
  obtain ⟨st, hst⟩ : ∃ st, st = initiationState S msg b.staticPub ei z₁ z₂ tvSec := ⟨_, rfl⟩
  have hcreate : handshakeCreateInitiation S 148 a.staticPriv a.staticPub (a.table.peers.get i).publicKey
      a.table.nextLocalIndex ei tvSec tvNsec = .ok (msg.wire, st) := by
    rw [h.knows]
    exact handshakeCreateInitiation_eq_ok.mpr ⟨le_rfl, z₁, z₂, h₁, h₂, msg, hmsg, rfl, hst⟩
  have hconsume : handshakeConsumeInitiation S msg.wire b.staticPriv b.staticPub b.table =
      .ok ⟨j, msg, st.chainingKey, st.hash, timestampBytes tvSec tvNsec⟩ := by
    rw [h.ownB] at h₁ h₂ hst hmsg ⊢
    rw [h.ownA] at hmsg
    rw [handshakeConsumeInitiation_honest hS (h.ownA ▸ h.known) h.inTime h₁ h₂ msg hmsg, hst]
    rfl
  exact ⟨msg, st, hcreate, ⟨packetPeekType_initiation msg, hconsume⟩, by rw [hmsg]; rfl, by rw [hmsg]; rfl,
    by rw [hst]; rfl, by rw [hst, hmsg]; rfl⟩

/-- The response is created, and `a` consumes it: the two have the same keys, crosswise. -/
theorem Introduced.answered (hS : S.Correct) (h : Introduced S a b i j ei er tvSec) (init : ConsumedInitiation b.table)
    {st : HandshakeInitState β} (hpeer : init.peer = j) (hck : init.chainingKey = st.chainingKey)
    (hhash : init.hash = st.hash) (heph : init.parsed.unencryptedEphemeral = S.scalarmultBase ei)
    (hidx : init.parsed.senderIndex = st.localIndex) (hpriv : st.ephemeralPrivate = ei) :
    ∃ resp, b.respond S init er = .ok resp ∧ handshakeConsumeResponse S resp.packet a.staticPriv st =
      .ok ⟨b.table.nextLocalIndex, resp.recvKey, resp.sendKey⟩ := by
  obtain ⟨z₃, h₃⟩ := Option.ne_none_iff_exists'.mp h.dh₃
  obtain ⟨z₄, h₄⟩ := Option.ne_none_iff_exists'.mp h.dh₄
  have hkey : (b.table.peers.get init.peer).publicKey = a.staticPub := by
    rw [hpeer]
    exact (peerFindByPubkey_eq_some.mp h.known).1
  refine ⟨⟨_, _, _⟩, handshakeCreateResponse_eq_ok.mpr ⟨le_rfl, z₃, z₄, heph ▸ h₃, hkey ▸ h₄, rfl, rfl, rfl⟩, ?_⟩
  rw [hck, hhash, hidx]
  rw [hS.dh_comm, ← hpriv] at h₃
  rw [h.ownA, hS.dh_comm] at h₄
  exact handshakeConsumeResponse_honest hS st _ _ h₃ h₄

/-- **A handshake that is not disturbed links two hosts.** The initiation arrives at `b` in the datagram `r`. -/
theorem Introduced.joins (hS : S.Correct) {r : Recv β} (h : Introduced S a b i j ei r.ephemeral tvSec)
    (tvNsec now now' : BitVec 64) :
    ∃ initiation st, handshakeCreateInitiation S 148 a.staticPriv a.staticPub (a.table.peers.get i).publicKey
        a.table.nextLocalIndex ei tvSec tvNsec = .ok (initiation, st) ∧
      ∃ response fin, Effect.send r.src response ∈ (step S b (.udp { r with datagram := initiation })).2 ∧
        handshakeConsumeResponse S response a.staticPriv st = .ok fin ∧
        ∃ L : Link β, L.peer = Side.pair ↑i ↑j ∧
          L.Joins (Side.pair (a.initiated i fin now now') (step S b (.udp { r with datagram := initiation })).1) := by
  obtain ⟨msg, st, hcreate, hacc, heph, hsender, hpriv, hlocal⟩ := h.accepted hS tvNsec
  refine ⟨msg.wire, st, hcreate, ?_⟩
  have htake : msg.wire.take 2048 = msg.wire := List.take_of_length_le (by simp [PacketHandshakeInit.wire])
  rw [← htake] at hacc
  obtain ⟨r', hr', hsrc, hdatagram, hephemeral, hnow⟩ : ∃ r' : Recv β, { r with datagram := msg.wire } = r' ∧
    r'.src = r.src ∧ r'.datagram = msg.wire ∧ r'.ephemeral = r.ephemeral ∧ r'.now = r.now :=
    ⟨_, rfl, rfl, rfl, rfl, rfl⟩
  rw [hr', ← hsrc]
  rw [← hdatagram] at hacc
  rw [← hephemeral] at h
  obtain ⟨resp, hresp, hfin⟩ := h.answered hS ⟨j, msg, st.chainingKey, st.hash, timestampBytes tvSec tvNsec⟩ rfl rfl
    rfl heph (hsender.trans hlocal.symm) hpriv
  have hstep : step S b (.udp r') = _ := udpStep_of_initiation hacc
  simp only [hresp] at hstep
  have hinv := indexInv_step (step_cases S b (.udp r')) (fun _ _ _ => h.roomB) h.invB
  rw [hstep] at hinv ⊢
  refine ⟨resp.packet, _, List.mem_cons_of_mem _ (List.mem_cons_of_mem _ List.mem_cons_self), hfin,
    .between i j a.table.nextLocalIndex b.table.nextLocalIndex resp.recvKey resp.sendKey now r'.now, rfl,
    Side.forall_sides .a ?_ ?_, Side.forall_sides .a ?_ ?_⟩
  · exact indexInv_initSession h.invA h.roomA
  · exact hinv
  · exact PeerTable.established_update.mpr (.inl ⟨rfl, congrArg Peer.currentSession (peerInitSession_eq ..), rfl⟩)
  · refine PeerTable.established_update.mpr (.inl ⟨rfl, Daemon.current_rekeyed.trans ?_, rfl⟩)
    rw [← hsender]
    rfl

end

/-- **A handshake makes two hosts a pair of channels**, with the encryption of the libsodium in `deps/`. All that is
assumed of the library is that both ends of an exchange compute the same secret. The host `a` creates an initiation;
when it arrives at the daemon `b`, in the datagram `r`, `b` sends a response, and `a` consumes it. Then a link joins
the two, and whatever is moved from then on, they are a tunnel. -/
theorem handshake_tunnel (rest : Sodium (BitVec 8))
    (hdh : ∀ x y, rest.scalarmult x (rest.scalarmultBase y) = rest.scalarmult y (rest.scalarmultBase x))
    (a b : Daemon (BitVec 8)) (i : Fin a.table.peers.length) (j : Fin b.table.peers.length) (ei : Bytes (BitVec 8) 32)
    (tvSec tvNsec now now' : BitVec 64) (r : Recv (BitVec 8))
    (h : Introduced (vendoredAead rest) a b i j ei r.ephemeral tvSec) :
    ∃ initiation st, handshakeCreateInitiation (vendoredAead rest) 148 a.staticPriv a.staticPub
        (a.table.peers.get i).publicKey a.table.nextLocalIndex ei tvSec tvNsec = .ok (initiation, st) ∧
      ∃ response fin,
        Effect.send r.src response ∈ (step (vendoredAead rest) b (.udp { r with datagram := initiation })).2 ∧
        handshakeConsumeResponse (vendoredAead rest) response a.staticPriv st = .ok fin ∧
        ∃ (L : Link (BitVec 8)) (d : Side → Daemon (BitVec 8)), L.peer = Side.pair ↑i ↑j ∧
          d = Side.pair (a.initiated i fin now now')
            (step (vendoredAead rest) b (.udp { r with datagram := initiation })).1 ∧
          L.Joins d ∧
          ∀ moves : List (Transit (BitVec 8)), moves.length ≤ 2 ^ 64 →
          Machine.Along (Hosts.step (vendoredAead rest) L) (fun _ h m => L.Admits (vendoredAead rest) h m) []
            ⟨d, fun _ => []⟩ moves →
          Machine.outputs (Hosts.step (vendoredAead rest) L) ⟨d, fun _ => []⟩ moves =
            Machine.outputs (idealStep L d) (fun _ => .empty) moves := by
  have hcorrect : (vendoredAead rest).Correct := ⟨hdh, vendoredAead_inverts rest⟩
  obtain ⟨initiation, st, hcreate, response, fin, hsend, hconsume, L, hpeer, hjoins⟩ := h.joins hcorrect tvNsec now now'
  exact ⟨initiation, st, hcreate, response, fin, hsend, hconsume, L, _, hpeer, rfl, hjoins,
    fun moves hroom hadmits => (hjoins.run hcorrect.decrypt_encrypt hroom hadmits).1⟩

/-! ### A handshake and a packet -/

/-- The configuration of the initiator is what it was. -/
theorem Daemon.config_initiated {a : Daemon β} {i : Fin a.table.peers.length} {fin : ConsumedResponse β}
    {now now' : BitVec 64} :
    (a.initiated i fin now now').table.peers.map Peer.config = a.table.peers.map Peer.config :=
  PeerTable.map_update (t := a.table.takeIndex) _ ((congrArg Peer.config (peerInitSession_eq ..)).trans rfl)

/-- A packet that is read and routed comes out, if its datagram arrives and it is let through. -/
theorem outputs_packet (L : Link β) (d : Side → Daemon β) (s : Side) {packet : List β}
    (hcarries : Carries (d s) (L.peer s) packet) (htakes : takes (d s.other) (L.peer s.other) packet = true)
    (r : Recv β) : Machine.outputs (idealStep L d) (fun _ => .empty) [.packet s packet, .arrive s.other 0 r] =
      [[], [(s.other, packet)]] := by
  have harrive : (Channel.State.empty.send packet).arrive replayWindowSize 0 = _ :=
    Channel.State.arrive_of_accepts rfl (Channel.State.accepts_of_lt fun _ h => absurd h List.not_mem_nil)
  simp only [Machine.outputs, idealStep, if_pos hcarries, Side.other_other, Function.update_self, harrive,
    List.filter_cons_of_pos htakes, List.filter_nil, List.map_cons, List.map_nil]

theorem allowedIps_toyPeer_le : toyPeer.allowedIps.length ≤ 64 := toyPeer.allowedIps_le

/-- The toy initiator as a host, with the toy daemon as its peer. -/
def toyInitiator : Daemon (BitVec 8) :=
  { staticPriv := toyInitiatorPriv
    staticPub := toySodium.scalarmultBase toyInitiatorPriv
    table := ⟨[{ toyPeer with
      publicKey := toySodium.scalarmultBase toyResponderPriv
      allowedIps_le := allowedIps_toyPeer_le }], Nat.le_of_ble_eq_true rfl, 1⟩
    tun := ⟨true, 1440⟩ }

/-- How a datagram arrives at the responder: from port 9 of 127.0.0.1, with the ephemeral key 13 at hand. -/
def toyCarrier : Recv (BitVec 8) := ⟨⟨.inet 9 0x7f000001, 16⟩, [], List.Vector.replicate 32 13, 500, 500⟩

/-- The two toy hosts can set up a session. -/
theorem toyHosts_introduced : Introduced (vendoredAead toySodium) toyInitiator toyDaemon ⟨0, by decide⟩ ⟨0, by decide⟩
    (List.Vector.replicate 32 11) toyCarrier.ephemeral 1000 where
  ownA := rfl
  ownB := rfl
  knows := rfl
  known := by decide
  inTime := by decide
  dh₁ := nofun
  dh₂ := nofun
  dh₃ := nofun
  dh₄ := nofun
  invA := indexInv_start (PeerTable.noSessions_of_forall (by decide))
  invB := indexInv_start noSessions_toyDaemon
  roomA := by decide
  roomB := by decide

/-- They do, and a packet that the initiator reads is written by the responder when its datagram arrives. -/
theorem handshake_tunnel_toy : ∃ initiation st, handshakeCreateInitiation (vendoredAead toySodium) 148 toyInitiatorPriv
      (toySodium.scalarmultBase toyInitiatorPriv) (toySodium.scalarmultBase toyResponderPriv) 1
      (List.Vector.replicate 32 11) 1000 0 = .ok (initiation, st) ∧
    ∃ response fin, Effect.send toyCarrier.src response ∈
        (step (vendoredAead toySodium) toyDaemon (.udp { toyCarrier with datagram := initiation })).2 ∧
      handshakeConsumeResponse (vendoredAead toySodium) response toyInitiatorPriv st = .ok fin ∧
      ∃ (L : Link (BitVec 8)) (d : Side → Daemon (BitVec 8)),
        d = Side.pair (toyInitiator.initiated ⟨0, by decide⟩ fin 500 500)
          (step (vendoredAead toySodium) toyDaemon (.udp { toyCarrier with datagram := initiation })).1 ∧ L.Joins d ∧
        Machine.outputs (Hosts.step (vendoredAead toySodium) L) ⟨d, fun _ => []⟩
          [.packet .a (List.replicate 20 1), .arrive .b 0 toyCarrier] = [[], [(.b, List.replicate 20 1)]] := by
  obtain ⟨initiation, st, hcreate, response, fin, hsend, hconsume, L, d, hpeer, hd, hjoins, hrun⟩ :=
    handshake_tunnel toySodium toySodium_correct.dh_comm toyInitiator toyDaemon ⟨0, by decide⟩ ⟨0, by decide⟩
      (List.Vector.replicate 32 11) 1000 0 500 500 toyCarrier toyHosts_introduced
  refine ⟨initiation, st, hcreate, response, fin, hsend, hconsume, L, d, hd, hjoins, ?_⟩
  refine (hrun [.packet .a (List.replicate 20 1), .arrive .b 0 toyCarrier] (by decide)
    ⟨Nat.le_of_ble_eq_true rfl, trivial, trivial⟩).trans ?_
  -- what is routed and let through is decided by the configuration, which the handshake has not changed
  have hcarries : Carries (d .a) (L.peer .a) (List.replicate 20 1) := by
    have htun : (toyInitiator.initiated ⟨0, by decide⟩ fin 500 500).tun = toyInitiator.tun := rfl
    rw [hd, hpeer]
    exact (carries_congr htun Daemon.config_initiated).mpr (by decide)
  have htakes : takes (d .b) (L.peer .b) (List.replicate 20 1) = true := by
    have hcase := step_cases (vendoredAead toySodium) toyDaemon (.udp { toyCarrier with datagram := initiation })
    rw [hd, hpeer]
    exact (takes_congr hcase.tun hcase.config _).trans (by decide)
  exact outputs_packet L d .a hcarries htakes toyCarrier

end VpnTunnel
