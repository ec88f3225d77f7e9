import VpnTunnel.Exposure
import VpnTunnel.SessionLifecycle
import VpnTunnel.SystemCalls

/-!
# The life of the daemon

This module models `main` as a program of system calls, from start to exit: it opens the socket and the device, polls
them, does what the machine of `Daemon` says, and closes everything when it is told to stop.

## The model

The handler of `SIGINT` and `SIGTERM` only clears `g_running`, which is read once in each round of the loop. So a
signal is modelled by the number of rounds after which the loop ends (`eventLoop`). The kernel may answer every call as
it likes. Logging is left out, and so is the text of the public key.

`main` calls `peer_table_init` and registers no peer; `mainWith` is the same program with the peers of a table.

## What is proved

* `eventLoop_refines` — what the loop lets out by its calls is what the machine does with what the calls bring in.
* `exec_eventLoop` — every run of the machine is one of the loop.
* `main_releases` — the program never uses a descriptor that is not open, and when it returns, on whatever path, it has
  closed every descriptor and overwritten its private key, and no session has anything left in it.
* `main_silent` — as it is, without peers, it never lets anything out.
-/

namespace VpnTunnel

open Octets CString Calls

variable {β : Type} [Octet β] [DecidableEq β] (S : Sodium β) (I : Inet)

/-! ### The event loop -/

/-- Do what a step of the loop does. `deliver` has made the checks of `tun_write` before. -/
def perform (sockFd : ℤ) (tun : TunHandle) : Effect β → Sys β Unit
  | .send dest datagram => do
    let _ ← transportSend sockFd dest datagram
    return ()
  | .write _ _ _ packet => do
    let _ ← tunWriteOut tun packet
    return ()
  | .accept _ _ _ | .install _ _ | .encrypt _ _ _ => return ()

/-- Do all of it, and go on with the new state. -/
def react (sockFd : ℤ) (tun : TunHandle) (out : Daemon β × List (Effect β)) : Sys β (Daemon β) := do
  out.2.forM (perform sockFd tun)
  return out.1

/-- 1. "INBOUND UDP NETWORK DATAGRAM EVENT". -/
def inbound (sockFd : ℤ) (tun : TunHandle) (pollin : Bool) (d : Daemon β) : Sys β (Daemon β) :=
  if pollin then do
    match ← transportRecv sockFd 2048 with
    | .ok (some r) => if 0 < r.datagram.length then react sockFd tun (udpStep S d r) else return d
    | .ok none | .error _ => return d
  else return d

/-- The descriptors that are polled, `fds`. -/
def pollFds (sockFd : ℤ) (tun : TunHandle) : List ℤ := if 0 ≤ tun.fd then [sockFd, tun.fd] else [sockFd]

/-- 2. "OUTBOUND TUN PACKET EVENT". -/
def outbound (sockFd : ℤ) (tun : TunHandle) (pollin : Bool) (d : Daemon β) : Sys β (Daemon β) :=
  if (pollFds sockFd tun).length > 1 ∧ pollin then do
    match ← tunRead tun 2048 with
    | .ok packet => react sockFd tun (tunStep S d packet)
    | .error _ => return d
  else return d

/-- The event loop. It is entered as long as `g_running` is set, which is `n` times. -/
def eventLoop (sockFd : ℤ) (tun : TunHandle) : ℕ → Daemon β → Sys β (Daemon β)
  | 0, d => return d
  | n + 1, d => do
    match ← sys (.poll (pollFds sockFd tun)) with
    | .error .eintr => eventLoop sockFd tun n d
    | .error _ => return d
    | .ok revents =>
      let d ← inbound S sockFd tun revents.1 d
      let d ← outbound S sockFd tun revents.2 d
      eventLoop sockFd tun n d

/-! ### The program -/

/-- The end of the program. -/
structure Exit (β : Type) where
  /-- What it returns. -/
  status : ℕ
  /-- What is in `static_priv`, if anything was put there. -/
  staticPriv : Option (Bytes β 32)
  /-- What is left of the peers, if there is a table: what the loop of `peer_table_destroy` has left, where it was
  called. -/
  peers : List (Peer β)

/-- Set the device up, if there is one. -/
def tunConfigure (tun : TunHandle) : Except Failure Unit → Sys β Unit
  | .ok _ => do
    let _ ← tunSetIp I tun (ofText "10.0.0.1") (ofText "255.255.255.0")
    let _ ← tunSetUp tun
    return ()
  | .error _ => return ()

/-- The program with the peers of a table. It is told to stop after `n` rounds of the event loop, and `tun` is what its
uninitialised variable holds. -/
def mainWith (table : PeerTable β) (tun : TunHandle) (n : ℕ) : Sys β (Exit β) := do
  let rc ← sys .sodiumInit
  if rc < 0 then return ⟨1, none, []⟩
  else
    let staticPriv ← sys .randombytes
    match ← transportOpen I none 51820 with
    | .error _ =>
      let staticPriv := vpnCryptoMemzero staticPriv 32
      -- the table is left as it is
      return ⟨1, some staticPriv, table.peers⟩
    | .ok sockFd =>
      let opened ← tunOpen tun (some (ofText "vpn0")) 1440
      tunConfigure I opened.1 opened.2
      let d ← eventLoop S sockFd opened.1 n ⟨staticPriv, S.scalarmultBase staticPriv, table, opened.1.view⟩
      let peers := destroySessions d.table
      let _ ← transportClose sockFd
      let _ ← tunClose opened.1
      let d := { d with staticPriv := vpnCryptoMemzero d.staticPriv 32 }
      return ⟨0, some d.staticPriv, peers⟩

/-- The program, `main`: it registers no peer. -/
def main (tun : TunHandle) (n : ℕ) : Sys β (Exit β) := mainWith S I peerTableInit tun n

/-! ### A rule for the loop -/

section

variable {S I} {sockFd : ℤ} {tun : TunHandle} {σ : Type} {K : Kernel (Syscall β) Syscall.Answer σ}
  {G : σ → Syscall β → Prop} {J : Daemon β → σ → Prop} {s : σ}

/-- What `poll`, what is made of a datagram and what is made of a packet keep, the loop keeps. -/
theorem meets_eventLoop
    (hpoll : ∀ d s, J d s → Meets K G (sys (.poll (pollFds sockFd tun))) (fun _ => J d) s)
    (hinbound : ∀ pollin d s, J d s → Meets K G (inbound S sockFd tun pollin d) J s)
    (houtbound : ∀ pollin d s, J d s → Meets K G (outbound S sockFd tun pollin d) J s) (n : ℕ) {d : Daemon β}
    (hd : J d s) : Meets K G (eventLoop S sockFd tun n d) J s := by
  induction n generalizing d s with
  | zero => exact hd
  | succ n ih =>
    refine meets_bind.mpr ((hpoll d s hd).mono fun r s hs => ?_)
    rcases r with (_ | _ | _) | revents
    · exact hs
    · exact ih hs
    · exact hs
    · refine meets_bind.mpr ((hinbound revents.1 d s hs).mono fun d s hd => ?_)
      exact meets_bind.mpr ((houtbound revents.2 d s hd).mono fun d s hd => ih hd)

end

/-! ### The loop and the machine -/

/-- What leaves the daemon. -/
inductive Output (β : Type) where
  /-- A datagram, by `sendto`. -/
  | datagram (dest : Endpoint) (buf : List β)
  /-- A packet, by `write`. -/
  | packet (buf : List β)
  deriving DecidableEq

/-- What an effect lets out. -/
def Effect.output : Effect β → Option (Output β)
  | .send dest datagram => some (.datagram dest datagram)
  | .write _ _ _ packet => some (.packet packet)
  | .accept _ _ _ | .install _ _ | .encrypt _ _ _ => none

/-- What a call lets out. -/
def outputOf : (c : Syscall β) × c.Answer → Option (Output β)
  | ⟨.sendto _ dest buf, _⟩ => some (.datagram dest buf)
  | ⟨.write _ buf, _⟩ => some (.packet buf)
  | _ => none

/-- What the answer of a call brings in. -/
def inputOf : (c : Syscall β) × c.Answer → Option (Event β)
  | ⟨.recvfrom _ _, .ok r⟩ => some (.udp r)
  | ⟨.read _ _, .ok packet⟩ => some (.tun packet)
  | _ => none

/-- The calls were those of a run of the machine, from one state to another. -/
structure Follows (S : Sodium β) (tun : TunHandle) (start d : Daemon β) (calls : List ((c : Syscall β) × c.Answer)) :
    Prop where
  /-- The state is the one the machine has come to. -/
  state : (runLoop S start (calls.filterMap inputOf)).1 = d
  /-- What was let out is what the machine has let out. -/
  outputs : (runLoop S start (calls.filterMap inputOf)).2.filterMap Effect.output = calls.filterMap outputOf
  /-- It sees the device that there is. -/
  tun : d.tun = tun.view

section

variable {S I} {sockFd : ℤ} {tun : TunHandle} {start d : Daemon β} {past : List ((c : Syscall β) × c.Answer)}

/-- An effect can be carried out as it is. -/
def Effect.Feasible (sockFd : ℤ) (tun : TunHandle) : Effect β → Prop
  | .send _ datagram => 0 ≤ sockFd ∧ 0 < datagram.length ∧ datagram.length ≤ 2048
  | .write _ _ _ packet => tunWrite tun.view packet = .ok packet
  | .accept _ _ _ | .install _ _ | .encrypt _ _ _ => True

omit [Octet β] [DecidableEq β] in
theorem record_perform {e : Effect β} (he : e.Feasible sockFd tun) :
    Meets record (fun _ _ => True) (perform sockFd tun e)
      (fun _ calls => calls.filterMap inputOf = past.filterMap inputOf ∧
        calls.filterMap outputOf = past.filterMap outputOf ++ e.output.toList) past := by
  cases e with
  | send dest datagram =>
    obtain ⟨hfd, hpos, hle⟩ := he
    refine meets_bind.mpr ?_
    unfold transportSend
    rw [if_neg (by omega), if_neg (by omega)]
    refine meets_bind.mpr ⟨trivial, ?_⟩
    rintro r _ rfl
    rcases r with (_ | _ | _) | _ <;> exact ⟨by simp [inputOf], by simp [outputOf, Effect.output]⟩
  | write i key c packet =>
    refine meets_bind.mpr ?_
    unfold tunWriteOut
    rw [show tunWrite tun.view packet = .ok packet from he]
    refine meets_bind.mpr ⟨trivial, ?_⟩
    rintro r _ rfl
    rcases r with (_ | _ | _) | _ <;> exact ⟨by simp [inputOf], by simp [outputOf, Effect.output]⟩
  | accept _ _ _ => exact ⟨rfl, by simp [Effect.output]⟩
  | install _ _ => exact ⟨rfl, by simp [Effect.output]⟩
  | encrypt _ _ _ => exact ⟨rfl, by simp [Effect.output]⟩

omit [DecidableEq β] in
theorem Deliverable.tunWrite_eq {tun : TunDevice} {p : Peer β} {plain : List β} (h : Deliverable tun p plain) :
    tunWrite tun plain = .ok plain := by
  have hne : plain ≠ [] := fun hnil => by simpa [hnil] using h.length
  simp [tunWrite, h.fdOpen, hne, Nat.not_lt.mpr h.fits]

/-- What a step does can be carried out. -/
theorem StepCase.feasible {d' : Daemon β} {ev : Event β} {effects : List (Effect β)} (h : StepCase S d ev d' effects)
    (hsock : 0 ≤ sockFd) (htun : d.tun = tun.view) : ∀ e ∈ effects, e.Feasible sockFd tun := by
  intro e he
  cases e with
  | send dest datagram =>
    obtain ⟨hpos, hle⟩ := h.length_send he
    exact ⟨hsock, by omega, hle⟩
  | write i key c packet =>
    cases h with
    | idle => cases he
    | data hacc =>
      obtain ⟨heq, hdeliver⟩ := mem_deliver.mp he
      cases heq
      rw [htun] at hdeliver
      exact hdeliver.tunWrite_eq
    | initiation _ _ => simp at he
    | unanswered _ _ => simp at he
    | outbound hroute =>
      rcases List.mem_cons.mp he with heq | hsent
      · cases heq
      · obtain ⟨dest, pkt, heq⟩ := eq_send_of_mem_sendSealed hsent
        cases heq
  | accept _ _ _ => exact trivial
  | install _ _ => exact trivial
  | encrypt _ _ _ => exact trivial

omit [Octet β] [DecidableEq β] in
theorem record_react {out : Daemon β × List (Effect β)} (hout : ∀ e ∈ out.2, e.Feasible sockFd tun) :
    Meets record (fun _ _ => True) (react sockFd tun out) (fun d calls => d = out.1 ∧
      calls.filterMap inputOf = past.filterMap inputOf ∧
      calls.filterMap outputOf = past.filterMap outputOf ++ out.2.filterMap Effect.output) past := by
  refine meets_bind.mpr (Meets.mono (Meets.forM
    (I := fun done calls => calls.filterMap inputOf = past.filterMap inputOf ∧
      calls.filterMap outputOf = past.filterMap outputOf ++ done.filterMap Effect.output) ?_ ?_) ?_)
  · exact ⟨rfl, by simp⟩
  · rintro done e rest heq calls ⟨hin, houts⟩
    refine (record_perform (hout e (by simp [heq]))).mono ?_
    rintro _ calls' ⟨hin', houts'⟩
    refine ⟨hin'.trans hin, ?_⟩
    rw [houts', houts, List.filterMap_append, List.append_assoc]
    cases houtput : e.output <;> simp [houtput]
  · exact fun _ calls h => ⟨rfl, h⟩

/-- A call that brings nothing in and lets nothing out. -/
theorem Follows.quiet (h : Follows S tun start d past) {x : (c : Syscall β) × c.Answer} (hin : inputOf x = none)
    (hout : outputOf x = none) : Follows S tun start d (past ++ [x]) := by
  have hinputs : (past ++ [x]).filterMap inputOf = past.filterMap inputOf := by simp [hin]
  have houtputs : (past ++ [x]).filterMap outputOf = past.filterMap outputOf := by simp [hout]
  refine ⟨?_, ?_, h.tun⟩
  · rw [hinputs]
    exact h.state
  · rw [hinputs, houtputs]
    exact h.outputs

/-- A call that brings something in, followed by all that the machine does with it. -/
theorem Follows.input (h : Follows S tun start d past) {x : (c : Syscall β) × c.Answer} {ev : Event β}
    (hin : inputOf x = some ev) {calls : List ((c : Syscall β) × c.Answer)}
    (hinputs : calls.filterMap inputOf = (past ++ [x]).filterMap inputOf)
    (houtputs : calls.filterMap outputOf = past.filterMap outputOf ++ (step S d ev).2.filterMap Effect.output) :
    Follows S tun start (step S d ev).1 calls := by
  have hrun : runLoop S start (calls.filterMap inputOf) =
      ((step S d ev).1, (runLoop S start (past.filterMap inputOf)).2 ++ (step S d ev).2) := by
    have hstate : (Machine.run (step S) start (past.filterMap inputOf)).1 = d := h.state
    rw [hinputs, List.filterMap_append, List.filterMap_cons_some hin, List.filterMap_nil, runLoop, Machine.run_append,
      hstate, Machine.run_cons, Machine.run_nil, List.append_nil]
  refine ⟨?_, ?_, ?_⟩
  · rw [hrun]
  · rw [hrun, List.filterMap_append, h.outputs, houtputs]
  · exact (step_cases S d ev).tun.trans h.tun

/-- The machine does nothing with an empty datagram. -/
theorem udpStep_nil {r : Recv β} (hr : r.datagram = []) : udpStep S d r = (d, []) := by
  unfold udpStep
  rw [hr]
  rfl

omit [DecidableEq β] in
/-- It does nothing with an empty packet. -/
theorem tunStep_nil : tunStep S d [] = (d, []) := by
  unfold tunStep
  rw [if_neg (by simp)]

theorem record_step (hsock : 0 ≤ sockFd) (h : Follows S tun start d past) {x : (c : Syscall β) × c.Answer}
    {ev : Event β} (hin : inputOf x = some ev) (hout : outputOf x = none) :
    Meets record (fun _ _ => True) (react sockFd tun (step S d ev)) (Follows S tun start) (past ++ [x]) := by
  refine (record_react ((step_cases S d ev).feasible hsock h.tun)).mono ?_
  rintro _ calls ⟨rfl, hinputs, houtputs⟩
  refine h.input hin hinputs ?_
  rw [houtputs, List.filterMap_append, List.filterMap_cons_none hout, List.filterMap_nil, List.append_nil]

theorem record_inbound (hsock : 0 ≤ sockFd) (h : Follows S tun start d past) (pollin : Bool) :
    Meets record (fun _ _ => True) (inbound S sockFd tun pollin d) (Follows S tun start) past := by
  unfold inbound
  split
  · refine meets_bind.mpr ?_
    unfold transportRecv
    rw [if_neg (by omega)]
    refine meets_bind.mpr ⟨trivial, ?_⟩
    rintro r _ rfl
    rcases r with (_ | _ | _) | r
    · exact h.quiet rfl rfl
    · exact h.quiet rfl rfl
    · exact h.quiet rfl rfl
    · have hreceived : Meets record (fun _ _ => True)
          (if 0 < r.datagram.length then react sockFd tun (udpStep S d r) else return d) (Follows S tun start)
          (past ++ [⟨.recvfrom sockFd 2048, .ok r⟩]) := by
        split
        · exact record_step hsock h (x := ⟨.recvfrom sockFd 2048, .ok r⟩) rfl rfl
        · next hempty =>
          have hstep : step S d (.udp r) = (d, []) := udpStep_nil (List.eq_nil_of_length_eq_zero (by omega))
          have hnext : Follows S tun start (step S d (.udp r)).1 (past ++ [⟨.recvfrom sockFd 2048, .ok r⟩]) :=
            h.input (x := ⟨.recvfrom sockFd 2048, .ok r⟩) rfl rfl (by simp [hstep, outputOf])
          rw [hstep] at hnext
          exact hnext
      exact hreceived
  · exact h

theorem record_outbound (hsock : 0 ≤ sockFd) (h : Follows S tun start d past) (pollin : Bool) :
    Meets record (fun _ _ => True) (outbound S sockFd tun pollin d) (Follows S tun start) past := by
  unfold outbound
  split
  · next hready =>
    have hopen : 0 ≤ tun.fd := by
      by_contra hfd
      rw [pollFds, if_neg hfd] at hready
      exact absurd hready.1 (by simp)
    refine meets_bind.mpr ?_
    unfold tunRead
    rw [if_neg (by omega)]
    refine meets_bind.mpr ⟨trivial, ?_⟩
    rintro r _ rfl
    -- nothing to read is an empty packet
    have hempty : ∀ x, Follows S tun start d (past ++ [x]) →
        Meets record (fun _ _ => True) (react sockFd tun (tunStep S d [])) (Follows S tun start) (past ++ [x]) := by
      intro x hx
      rw [tunStep_nil]
      exact hx
    rcases r with (_ | _ | _) | packet
    · exact hempty _ (h.quiet rfl rfl)
    · exact hempty _ (h.quiet rfl rfl)
    · exact h.quiet rfl rfl
    · exact record_step hsock h (x := ⟨.read tun.fd 2048, .ok packet⟩) rfl rfl
  · exact h

end

/-! ### A life for each run -/

/-- The call an effect is carried out by, when all of it goes out. -/
def Effect.call (sockFd : ℤ) (tun : TunHandle) : Effect β → Option ((c : Syscall β) × c.Answer)
  | .send dest datagram => some ⟨.sendto sockFd dest datagram, .ok datagram.length⟩
  | .write _ _ _ packet => some ⟨.write tun.fd packet, .ok packet.length⟩
  | .accept _ _ _ | .install _ _ | .encrypt _ _ _ => none

/-- The calls by which an event comes in. -/
def Event.calls (sockFd : ℤ) (tun : TunHandle) : Event β → List ((c : Syscall β) × c.Answer)
  | .udp r => [⟨.poll (pollFds sockFd tun), .ok (true, false)⟩, ⟨.recvfrom sockFd 2048, .ok r⟩]
  | .tun packet => [⟨.poll (pollFds sockFd tun), .ok (false, true)⟩, ⟨.read tun.fd 2048, .ok packet⟩]

/-- The calls of the loop when one event comes in in each round, and everything goes out. -/
def loopCalls (sockFd : ℤ) (tun : TunHandle) (d : Daemon β) (events : List (Event β)) :
    List ((c : Syscall β) × c.Answer) :=
  (Machine.run (fun d ev => ((step S d ev).1,
    ev.calls sockFd tun ++ (step S d ev).2.filterMap (Effect.call sockFd tun))) d events).2

/-- In a state the kernel may answer the calls of the loop as it likes, and stays in the state. -/
structure Serves {σ : Type} (K : Kernel (Syscall β) Syscall.Answer σ) (s : σ) (sockFd : ℤ) (tun : TunHandle) :
    Prop where
  /-- To `poll`. -/
  poll : ∀ r, K s (.poll (pollFds sockFd tun)) r s
  /-- To `recvfrom`. -/
  recvfrom : ∀ r, K s (.recvfrom sockFd 2048) r s
  /-- To `read`. -/
  read : ∀ r, K s (.read tun.fd 2048) r s
  /-- To `sendto`. -/
  sendto : ∀ dest buf r, K s (.sendto sockFd dest buf) r s
  /-- To `write`. -/
  write : ∀ buf r, K s (.write tun.fd buf) r s

omit [Octet β] [DecidableEq β] in
/-- The kernel that keeps the list of descriptors does. -/
theorem serves_descriptors (held : List ℤ) (sockFd : ℤ) (tun : TunHandle) :
    Serves (β := β) (descriptors.kernel (0 ≤ ·)) held sockFd tun :=
  ⟨fun _ => ⟨nofun, rfl⟩, fun _ => ⟨nofun, rfl⟩, fun _ => ⟨nofun, rfl⟩, fun _ _ _ => ⟨nofun, rfl⟩,
    fun _ _ => ⟨nofun, rfl⟩⟩

section

variable {S} {σ : Type} {K : Kernel (Syscall β) Syscall.Answer σ} {s : σ} {sockFd : ℤ} {tun : TunHandle} {d : Daemon β}

omit [Octet β] [DecidableEq β] in
theorem exec_perform (hK : Serves K s sockFd tun) {e : Effect β} (he : e.Feasible sockFd tun) :
    Exec K s (perform sockFd tun e) (e.call sockFd tun).toList s (.ret ()) := by
  cases e with
  | send dest datagram =>
    obtain ⟨hfd, hpos, hle⟩ := he
    have hsend : Exec K s (transportSend sockFd dest datagram) [⟨.sendto sockFd dest datagram, .ok datagram.length⟩] s
        (.ret (.ok datagram.length)) := by
      unfold transportSend
      rw [if_neg (by omega), if_neg (by omega)]
      exact .answered (hK.sendto dest datagram _) (.here _ _)
    exact hsend.bind (.here _ _)
  | write i key c packet =>
    have hwrite : Exec K s (tunWriteOut tun packet) [⟨.write tun.fd packet, .ok packet.length⟩] s
        (.ret (.ok packet.length)) := by
      unfold tunWriteOut
      rw [show tunWrite tun.view packet = .ok packet from he]
      exact .answered (hK.write packet _) (.here _ _)
    exact hwrite.bind (.here _ _)
  | accept _ _ _ => exact .here _ _
  | install _ _ => exact .here _ _
  | encrypt _ _ _ => exact .here _ _

omit [Octet β] [DecidableEq β] in
theorem exec_react (hK : Serves K s sockFd tun) {out : Daemon β × List (Effect β)}
    (hout : ∀ e ∈ out.2, e.Feasible sockFd tun) :
    Exec K s (react sockFd tun out) (out.2.filterMap (Effect.call sockFd tun)) s (.ret out.1) := by
  have hall : Exec K s (out.2.forM (perform sockFd tun)) (out.2.filterMap (Effect.call sockFd tun)) s (.ret ()) := by
    generalize out.2 = effects at hout
    induction effects with
    | nil => exact .here _ _
    | cons e effects ih =>
      have hcalls : (e :: effects).filterMap (Effect.call sockFd tun) =
          (e.call sockFd tun).toList ++ effects.filterMap (Effect.call sockFd tun) := by
        cases hcall : e.call sockFd tun <;> simp [hcall]
      rw [hcalls]
      exact (exec_perform hK (hout e List.mem_cons_self)).bind (ih fun e he => hout e (List.mem_cons_of_mem _ he))
  have hret := hall.bind (f := fun _ => (pure out.1 : Sys β (Daemon β))) (.here s _)
  rw [List.append_nil] at hret
  exact hret

/-- A round in which an event comes in. -/
theorem exec_round (hK : Serves K s sockFd tun) (hsock : 0 ≤ sockFd) (hfd : 0 ≤ tun.fd) (htun : d.tun = tun.view)
    (ev : Event β) {n : ℕ} {calls : List ((c : Syscall β) × c.Answer)} {t : σ} {q : Sys β (Daemon β)}
    (hrest : Exec K s (eventLoop S sockFd tun n (step S d ev).1) calls t q) :
    Exec K s (eventLoop S sockFd tun (n + 1) d)
      (ev.calls sockFd tun ++ (step S d ev).2.filterMap (Effect.call sockFd tun) ++ calls) t q := by
  have hreact := exec_react hK ((step_cases S d ev).feasible hsock htun)
  have hpolled : (pollFds sockFd tun).length > 1 := by
    rw [pollFds, if_pos hfd]
    exact Nat.one_lt_two
  cases ev with
  | udp r =>
    have hin : Exec K s (inbound S sockFd tun true d) (⟨.recvfrom sockFd 2048, .ok r⟩ ::
        (step S d (.udp r)).2.filterMap (Effect.call sockFd tun)) s (.ret (step S d (.udp r)).1) := by
      unfold inbound transportRecv
      rw [if_pos rfl, if_neg (by omega)]
      refine .answered (hK.recvfrom (.ok r)) ?_
      show Exec K s (if 0 < r.datagram.length then react sockFd tun (udpStep S d r) else return d) _ s _
      split
      · exact hreact
      · next hempty =>
        have hstep : step S d (.udp r) = (d, []) := udpStep_nil (List.eq_nil_of_length_eq_zero (by omega))
        rw [hstep]
        exact .here _ _
    have hout : Exec K s (outbound S sockFd tun false (step S d (.udp r)).1) [] s (.ret (step S d (.udp r)).1) := by
      unfold outbound
      rw [if_neg (by simp)]
      exact .here _ _
    exact .answered (hK.poll (.ok (true, false))) (hin.bind (hout.bind hrest))
  | tun packet =>
    have hout : Exec K s (outbound S sockFd tun true d) (⟨.read tun.fd 2048, .ok packet⟩ ::
        (step S d (.tun packet)).2.filterMap (Effect.call sockFd tun)) s (.ret (step S d (.tun packet)).1) := by
      unfold outbound tunRead
      rw [if_pos ⟨hpolled, rfl⟩, if_neg (by omega)]
      exact .answered (hK.read (.ok packet)) hreact
    exact .answered (hK.poll (.ok (false, true))) (hout.bind hrest)

/-- **Every run of the machine is one of the loop**: there is an execution in which the events come in one by one, and
it ends in the state the machine has come to. -/
theorem exec_eventLoop (hK : Serves K s sockFd tun) (hsock : 0 ≤ sockFd) (hfd : 0 ≤ tun.fd) (htun : d.tun = tun.view)
    (events : List (Event β)) : Exec K s (eventLoop S sockFd tun events.length d) (loopCalls S sockFd tun d events) s
      (.ret (runLoop S d events).1) := by
  induction events generalizing d with
  | nil => exact .here _ _
  | cons ev events ih =>
    have hrest := ih ((step_cases S d ev).tun.trans htun)
    rw [loopCalls, Machine.run_cons]
    exact exec_round hK hsock hfd htun ev hrest

end

/-- The device of the toy daemon. -/
def toyTun : TunHandle := ⟨4, ofText "vpn0", 1440⟩

/-- A peer sets up a session and sends a packet, and a packet for it is read. -/
def toyBusy : List (Event (BitVec 8)) :=
  [toyRecv (toyInitiation 7 11 1000) 13 500, toyRecv toyPacket 0 501, .tun (List.replicate 20 1)]

/-- **The loop is the machine.** Whatever the kernel answers, what the event loop lets out by its system calls, in
order, is what the machine of the daemon does with what the calls have brought in, and it ends in the same state: what
holds of every run of the machine holds of the program. -/
theorem eventLoop_refines (S : Sodium β) {σ : Type} {K : Kernel (Syscall β) Syscall.Answer σ} {s t : σ} {sockFd : ℤ}
    (hsock : 0 ≤ sockFd) {tun : TunHandle} {d d' : Daemon β} (htun : d.tun = tun.view) (n : ℕ)
    {calls : List ((c : Syscall β) × c.Answer)} (hexec : Exec K s (eventLoop S sockFd tun n d) calls t (.ret d')) :
    (runLoop S d (calls.filterMap inputOf)).1 = d' ∧
      (runLoop S d (calls.filterMap inputOf)).2.filterMap Effect.output = calls.filterMap outputOf := by
  have hstart : Follows S tun d d [] := ⟨rfl, rfl, htun⟩
  have hloop : Meets record (fun _ _ => True) (eventLoop S sockFd tun n d) (Follows S tun d) [] := by
    refine meets_eventLoop ?_ ?_ ?_ n hstart
    · intro d past h
      refine ⟨trivial, ?_⟩
      rintro r _ rfl
      exact h.quiet rfl rfl
    · exact fun pollin d past h => record_inbound hsock h pollin
    · exact fun pollin d past h => record_outbound hsock h pollin
  have hfollows := hloop.of_record hexec
  exact ⟨hfollows.state, hfollows.outputs⟩

/-- The loop answers the initiation, writes the packet that has arrived, and sends the one that was read. -/
theorem eventLoop_refines_toy :
    (loopCalls toySodium 3 toyTun toyDaemon toyBusy).filterMap outputOf =
      [.datagram ⟨.inet 9 0x7f000001, 16⟩ (toyResponse 13), .packet (List.replicate 20 1),
        .datagram ⟨.inet 9 0x7f000001, 16⟩ (toyData 7 0 toySession.sendKey (List.replicate 20 1))] ∧
    (runLoop toySodium toyDaemon ((loopCalls toySodium 3 toyTun toyDaemon toyBusy).filterMap inputOf)).1 =
      (runLoop toySodium toyDaemon toyBusy).1 ∧
    (runLoop toySodium toyDaemon ((loopCalls toySodium 3 toyTun toyDaemon toyBusy).filterMap inputOf)).2.filterMap
      Effect.output = (loopCalls toySodium 3 toyTun toyDaemon toyBusy).filterMap outputOf :=
  ⟨by decide +kernel, eventLoop_refines toySodium (by decide) rfl 3
    (exec_eventLoop (serves_descriptors [4, 3] 3 toyTun) (by decide) (by decide) rfl toyBusy)⟩

/-! ### Descriptors -/

section

variable {S I} {P : Syscall β → Prop} {held : List ℤ} {sockFd : ℤ} {tun : TunHandle}

omit [Octet β] [DecidableEq β] in
theorem keeps_perform (hP : ∀ c, P c) (hsock : sockFd ∈ held) (htun : 0 ≤ tun.fd → tun.fd ∈ held) (e : Effect β) :
    Keeps P (perform sockFd tun e) (fun _ held' => held' = held) held := by
  cases e with
  | send dest datagram => exact meets_bind.mpr (keeps_transportSend (fun _ _ => hP _) dest datagram hsock)
  | write i key c packet => exact meets_bind.mpr (keeps_tunWriteOut (fun _ => hP _) packet htun)
  | accept _ _ _ => exact rfl
  | install _ _ => exact rfl
  | encrypt _ _ _ => exact rfl

omit [Octet β] [DecidableEq β] in
/-- A step is carried out if it does nothing, or if everything is allowed. -/
theorem keeps_react {out : Daemon β × List (Effect β)} (hP : out.2 = [] ∨ ∀ c, P c) (hsock : sockFd ∈ held)
    (htun : 0 ≤ tun.fd → tun.fd ∈ held) :
    Keeps P (react sockFd tun out) (fun d held' => d = out.1 ∧ held' = held) held := by
  refine meets_bind.mpr (Meets.mono (Q := fun _ held' => held' = held) ?_ fun _ _ h => ⟨rfl, h⟩)
  rcases hP with hnone | hP
  · rw [hnone]
    exact rfl
  · refine Meets.forM (I := fun _ held' => held' = held) rfl ?_
    rintro pre e post - held rfl
    exact keeps_perform hP hsock htun e

/-- The loop keeps what every step of the daemon keeps, if what the steps do is allowed. -/
theorem keeps_eventLoop {J : Daemon β → Prop} (hP : ∀ c : Syscall β, c.transmits = false → P c)
    (hstep : ∀ d ev, J d → J (step S d ev).1) (hact : ∀ d ev, J d → (step S d ev).2 = [] ∨ ∀ c, P c)
    (hsock : sockFd ∈ held) (htun : 0 ≤ tun.fd → tun.fd ∈ held) (n : ℕ) {d : Daemon β} (hd : J d) :
    Keeps P (eventLoop S sockFd tun n d) (fun d held' => J d ∧ held' = held) held := by
  have hreact : ∀ d ev, J d →
      Keeps P (react sockFd tun (step S d ev)) (fun d held' => J d ∧ held' = held) held := by
    intro d ev hd
    refine (keeps_react (hact d ev hd) hsock htun).mono ?_
    rintro _ held' ⟨rfl, hheld⟩
    exact ⟨hstep d ev hd, hheld⟩
  refine meets_eventLoop (J := fun d held' => J d ∧ held' = held) ?_ ?_ ?_ n ⟨hd, rfl⟩
  · rintro d held ⟨hd, rfl⟩
    have hfds : ∀ fd ∈ pollFds sockFd tun, fd ∈ held := by
      unfold pollFds
      split
      · next hopen => simpa using ⟨hsock, htun hopen⟩
      · simpa using hsock
    exact Resources.meets_use ⟨hfds, hP _ rfl⟩ (fun _ => rfl) rfl fun r => ⟨hd, rfl⟩
  · rintro pollin d held ⟨hd, rfl⟩
    unfold inbound
    split
    · refine meets_bind.mpr ((keeps_transportRecv hP 2048 hsock).mono ?_)
      rintro rc held rfl
      rcases rc with _ | _ | r
      · exact ⟨hd, rfl⟩
      · exact ⟨hd, rfl⟩
      · dsimp only
        split
        · exact hreact d (.udp r) hd
        · exact ⟨hd, rfl⟩
    · exact ⟨hd, rfl⟩
  · rintro pollin d held ⟨hd, rfl⟩
    unfold outbound
    split
    · refine meets_bind.mpr ((keeps_tunRead hP 2048 htun).mono ?_)
      rintro rc held rfl
      cases rc with
      | error e => exact ⟨hd, rfl⟩
      | ok packet => exact hreact d (.tun packet) hd
    · exact ⟨hd, rfl⟩

omit [Octet β] [DecidableEq β] in
theorem keeps_tunConfigure (hP : ∀ c : Syscall β, c.transmits = false → P c) (rc : Except Failure Unit) :
    Keeps P (tunConfigure I tun rc) (fun _ held' => held' = held) held := by
  cases rc with
  | error e => exact rfl
  | ok _ =>
    refine meets_bind.mpr ((keeps_tunSetIp hP tun _ _ held).mono ?_)
    rintro _ held rfl
    exact meets_bind.mpr (keeps_tunSetUp hP tun held)

/-- What is left when the program ends: no descriptor, nothing in `static_priv`, and the peers of the table at the
start, or those of a daemon after its run. -/
structure Exit.Clean (exit : Exit β) (table : PeerTable β) (J : Daemon β → Prop) (held : List ℤ) : Prop where
  /-- Every descriptor is closed. -/
  closed : held = []
  /-- The key is wiped. -/
  wiped : ∀ k, exit.staticPriv = some k → k = zeroBytes 32
  /-- There is no table yet, it is as it was, or it is that of a daemon. -/
  peers : exit.peers = [] ∨ exit.peers = table.peers ∨ ∃ d, J d ∧ exit.peers = destroySessions d.table

theorem keeps_mainWith {J : Daemon β → Prop} (hP : ∀ c : Syscall β, c.transmits = false → P c)
    (hstep : ∀ d ev, J d → J (step S d ev).1) (hact : ∀ d ev, J d → (step S d ev).2 = [] ∨ ∀ c, P c)
    {table : PeerTable β} (hstart : ∀ d : Daemon β, d.table = table → J d) (tun : TunHandle) (n : ℕ) :
    Keeps P (mainWith S I table tun n) (fun exit held => exit.Clean table J held) [] := by
  have hwiped : ∀ key k : Bytes β 32, some (vpnCryptoMemzero key 32) = some k → k = zeroBytes 32 :=
    fun key k hk => (Option.some.inj hk).symm.trans (vpnCryptoMemzero_all key)
  refine meets_bind.mpr (Resources.meets_use ⟨nofun, hP _ rfl⟩ (fun _ => rfl) rfl fun rc => ?_)
  split
  · exact ⟨rfl, nofun, .inl rfl⟩
  refine meets_bind.mpr (Resources.meets_use ⟨nofun, hP _ rfl⟩ (fun _ => rfl) rfl fun staticPriv => ?_)
  refine meets_bind.mpr ((keeps_transportOpen hP none 51820 []).mono fun rc held hrc => ?_)
  cases rc with
  | error e => exact ⟨hrc, hwiped staticPriv, .inr (.inl rfl)⟩
  | ok sockFd =>
    obtain ⟨hsock, -, rfl⟩ := hrc
    refine meets_bind.mpr ((keeps_tunOpen hP tun _ 1440 [sockFd]).mono fun opened held hopened => ?_)
    obtain ⟨tun', rc⟩ := opened
    have hheld := hopened.held_eq (by decide)
    have hmem : sockFd ∈ held := by
      rw [hheld.1]
      exact List.mem_append_right _ List.mem_cons_self
    have htun : 0 ≤ tun'.fd → tun'.fd ∈ held := by
      intro hfd
      rw [hheld.1, if_pos hfd]
      exact List.mem_cons_self
    -- the socket is closed first, and then the device
    have herase : held.erase sockFd = if 0 ≤ tun'.fd then [tun'.fd] else [] := by
      rw [hheld.1]
      split
      · next hfd =>
        have hne : tun'.fd ≠ sockFd := fun heq => hheld.2 hfd (heq ▸ List.mem_cons_self)
        simp [hne]
      · simp
    refine meets_bind.mpr ((keeps_tunConfigure hP rc).mono ?_)
    rintro _ held rfl
    refine meets_bind.mpr ((keeps_eventLoop hP hstep hact hmem htun n (hstart _ rfl)).mono ?_)
    rintro d held ⟨hd, rfl⟩
    refine meets_bind.mpr ((keeps_transportClose hP hsock hmem).mono ?_)
    rintro _ _ ⟨-, rfl⟩
    refine meets_bind.mpr ((keeps_tunClose hP herase).mono ?_)
    rintro _ _ ⟨-, rfl⟩
    exact ⟨rfl, hwiped d.staticPriv, .inr (.inr ⟨d, hd, rfl⟩)⟩

end

/-! ### The results about the program -/

/-- **The program cleans up.** Whatever the kernel answers, wherever the program stands: if it is about to make a call,
the descriptors it passes are open, and they are its own; and if it has returned, every descriptor it has opened is
closed, what was put into `static_priv` is overwritten, and no session of a peer has anything left of its keys. -/
theorem main_releases (S : Sodium β) (I : Inet) {table : PeerTable β} (htable : ∀ p ∈ table.peers, p.Fresh)
    (tun : TunHandle) (n : ℕ) {calls : List ((c : Syscall β) × c.Answer)} {held : List ℤ} {p : Sys β (Exit β)}
    (hexec : Exec (descriptors.kernel (0 ≤ ·)) [] (mainWith S I table tun n) calls held p) :
    (∀ c next, p = .call c next → ∀ fd ∈ descriptors.uses c, fd ∈ held) ∧
    ∀ exit, p = .ret exit → held = [] ∧ (∀ k, exit.staticPriv = some k → k = zeroBytes 32) ∧
      ∀ q ∈ exit.peers, q.Fresh := by
  have hstep : ∀ (d : Daemon β) ev, (∃ trace, d.Lives trace) → ∃ trace, (step S d ev).1.Lives trace := by
    rintro d ev ⟨trace, hlives⟩
    exact ⟨_, (step_cases S d ev).lives hlives⟩
  have hstart : ∀ d : Daemon β, d.table = table → ∃ trace, d.Lives trace :=
    fun d hd => ⟨[], lives_of_fresh (hd ▸ htable)⟩
  have hkeeps : Keeps (fun _ => True) (mainWith S I table tun n) _ [] :=
    keeps_mainWith (fun _ _ => trivial) hstep (fun _ _ _ => .inr fun _ => trivial) hstart tun n
  have hleft := hkeeps.exec hexec
  constructor
  · rintro c next rfl
    exact hleft.1.1
  · rintro exit rfl
    refine ⟨hleft.closed, hleft.wiped, fun q hq => ?_⟩
    rcases hleft.peers with hnone | hsame | ⟨d, ⟨trace, hlives⟩, hpeers⟩
    · rw [hnone] at hq
      cases hq
    · exact htable q (hsame ▸ hq)
    · rw [hpeers] at hq
      exact hlives.destroy q hq

/-- The address of the device. -/
def toyTunAddr : Bytes (BitVec 8) 4 := ⟨[10, 0, 0, 1], rfl⟩

/-- Its netmask. -/
def toyTunMask : Bytes (BitVec 8) 4 := ⟨[255, 255, 255, 0], rfl⟩

/-- Before the loop: the library is set up and the key is drawn. -/
def toyInit : List ((c : Syscall (BitVec 8)) × c.Answer) := [⟨.sodiumInit, 0⟩, ⟨.randombytes, toyResponderPriv⟩]

/-- The socket is opened. -/
def toySocket : List ((c : Syscall (BitVec 8)) × c.Answer) :=
  [⟨.socket .inet true, .ok 3⟩, ⟨.setsockopt 3, ()⟩, ⟨.bind 3 (.inet (htons 51820) (zeroBytes 4)), .ok ()⟩]

/-- The device is opened. -/
def toyTunOpen : List ((c : Syscall (BitVec 8)) × c.Answer) :=
  [⟨.openTun, .ok 4⟩, ⟨.ioctl 4 (.tunsetiff (ofText "vpn0") 0x1001#16), .ok (ofText "vpn0")⟩,
    ⟨.socket .inet false, .ok 5⟩, ⟨.ioctl 5 (.siocsifmtu (ofText "vpn0") 1440), .ok ()⟩, ⟨.close 5, ()⟩]

/-- It gets an address, and is brought up. -/
def toyTunSetup : List ((c : Syscall (BitVec 8)) × c.Answer) :=
  [⟨.socket .inet false, .ok 5⟩, ⟨.ioctl 5 (.siocsifaddr (ofText "vpn0") toyTunAddr), .ok ()⟩,
    ⟨.ioctl 5 (.siocsifnetmask (ofText "vpn0") toyTunMask), .ok ()⟩, ⟨.close 5, ()⟩,
    ⟨.socket .inet false, .ok 5⟩, ⟨.ioctl 5 (.siocgifflags (ofText "vpn0")), .ok 0#16⟩,
    ⟨.ioctl 5 (.siocsifflags (ofText "vpn0") 0x41#16), .ok ()⟩, ⟨.close 5, ()⟩]

/-- A busy life, with a device, a peer and a session. -/
def toyBusyLife : List ((c : Syscall (BitVec 8)) × c.Answer) :=
  toyInit ++ (toySocket ++ (toyTunOpen ++ (toyTunSetup ++ (loopCalls toySodium 3 toyTun toyDaemon toyBusy ++
    [⟨.close 3, ()⟩, ⟨.close 4, ()⟩]))))

/-- How it ends. -/
def toyBusyExit : Exit (BitVec 8) :=
  ⟨0, some (vpnCryptoMemzero (runLoop toySodium toyDaemon toyBusy).1.staticPriv 32),
    destroySessions (runLoop toySodium toyDaemon toyBusy).1.table⟩

theorem exec_toySocket : Exec (descriptors.kernel (0 ≤ ·)) [] (transportOpen toyInet none 51820) toySocket [3]
    (.ret (.ok 3)) := by
  have hfresh : ∀ x : ℤ, some (3 : ℤ) = some x → 0 ≤ x ∧ x ∉ [] := by
    rintro x ⟨⟩
    decide
  exact .answered ⟨hfresh, rfl⟩ (.answered ⟨nofun, rfl⟩ (.answered ⟨nofun, rfl⟩ (.here _ _)))

theorem exec_toyTunOpen : Exec (descriptors.kernel (0 ≤ ·)) [3] (tunOpen ⟨7, [], 0⟩ (some (ofText "vpn0")) 1440)
    toyTunOpen [4, 3] (.ret (toyTun, .ok ())) := by
  have hfresh : ∀ x : ℤ, some (4 : ℤ) = some x → 0 ≤ x ∧ x ∉ [3] := by
    rintro x ⟨⟩
    decide
  have hfresh' : ∀ x : ℤ, some (5 : ℤ) = some x → 0 ≤ x ∧ x ∉ [4, 3] := by
    rintro x ⟨⟩
    decide
  refine .answered ⟨hfresh, rfl⟩ (.answered ⟨nofun, rfl⟩ (.answered ⟨hfresh', rfl⟩ ?_))
  exact .answered ⟨nofun, rfl⟩ (.answered ⟨nofun, rfl⟩ (.here _ _))

theorem exec_toyTunSetup : Exec (descriptors.kernel (0 ≤ ·)) [4, 3] (tunConfigure toyInet toyTun (.ok ())) toyTunSetup
    [4, 3] (.ret ()) := by
  have hfresh : ∀ x : ℤ, some (5 : ℤ) = some x → 0 ≤ x ∧ x ∉ [4, 3] := by
    rintro x ⟨⟩
    decide
  have haddr : toyInet.pton4 (ofText "10.0.0.1") = some toyTunAddr := by decide +kernel
  have hmask : toyInet.pton4 (ofText "255.255.255.0") = some toyTunMask := by decide +kernel
  have hip : Exec (descriptors.kernel (0 ≤ ·)) [4, 3]
      (tunSetIp toyInet toyTun (ofText "10.0.0.1") (ofText "255.255.255.0")) (toyTunSetup.take 4) [4, 3]
      (.ret (.ok ())) := by
    unfold tunSetIp
    rw [haddr, hmask]
    refine .answered ⟨hfresh, rfl⟩ (.answered ⟨nofun, rfl⟩ (.answered ⟨nofun, rfl⟩ ?_))
    exact .answered ⟨nofun, rfl⟩ (.here _ _)
  have hup : Exec (descriptors.kernel (0 ≤ ·)) [4, 3] (tunSetUp toyTun) (toyTunSetup.drop 4) [4, 3]
      (.ret (.ok ())) := by
    refine .answered ⟨hfresh, rfl⟩ (.answered ⟨nofun, rfl⟩ (.answered ⟨nofun, rfl⟩ ?_))
    exact .answered ⟨nofun, rfl⟩ (.here _ _)
  exact hip.bind (hup.bind (.here _ _))

theorem exec_toyBusyLife : Exec (descriptors.kernel (0 ≤ ·)) []
    (mainWith toySodium toyInet toyDaemon.table ⟨7, [], 0⟩ 3) toyBusyLife [] (.ret toyBusyExit) := by
  have hloop : Exec (descriptors.kernel (0 ≤ ·)) [4, 3] (eventLoop toySodium 3 toyTun 3 toyDaemon) _ [4, 3] _ :=
    exec_eventLoop (serves_descriptors [4, 3] 3 toyTun) (by decide) (by decide) rfl toyBusy
  refine .answered ⟨nofun, rfl⟩ (.answered ⟨nofun, rfl⟩ ?_)
  refine exec_toySocket.bind (exec_toyTunOpen.bind (exec_toyTunSetup.bind (hloop.bind ?_)))
  exact .answered ⟨nofun, rfl⟩ (.answered ⟨nofun, rfl⟩ (.here _ _))

/-- In that life the peer has a session when the loop ends, and at the end nothing is open and nothing is left of it. -/
theorem main_releases_toy :
    (runLoop toySodium toyDaemon toyBusy).1.table.peers.map (fun p => p.currentSession.state) = [.established] ∧
    toyBusyExit.staticPriv = some (zeroBytes 32) ∧ toyBusyExit.peers.length = 1 ∧
    ∃ held, Exec (descriptors.kernel (0 ≤ ·)) [] (mainWith toySodium toyInet toyDaemon.table ⟨7, [], 0⟩ 3) toyBusyLife
      held (.ret toyBusyExit) ∧ held = [] ∧ (∀ k, toyBusyExit.staticPriv = some k → k = zeroBytes 32) ∧
      ∀ q ∈ toyBusyExit.peers, q.Fresh := by
  have hfresh : ∀ p ∈ toyDaemon.table.peers, p.Fresh := by
    intro p hp
    rw [List.mem_singleton.mp hp]
    exact ⟨rfl, rfl⟩
  refine ⟨by decide +kernel, congrArg some (vpnCryptoMemzero_all _), by decide +kernel, [], exec_toyBusyLife, ?_⟩
  exact (main_releases toySodium toyInet hfresh ⟨7, [], 0⟩ 3 exec_toyBusyLife).2 _ rfl

/-- A daemon without peers does nothing. -/
theorem StepCase.effects_eq_nil {S : Sodium β} {d d' : Daemon β} {ev : Event β} {effects : List (Effect β)}
    (h : StepCase S d ev d' effects) (hd : d.table.peers = []) : effects = [] := by
  have hnone : Fin d.table.peers.length → False := by
    rw [hd]
    exact Fin.elim0
  cases h with
  | idle => rfl
  | @data r parsed j slot plain hacc => exact (hnone j).elim
  | @initiation r init resp hacc hresp => exact (hnone init.peer).elim
  | @unanswered r init e hacc hresp => exact (hnone init.peer).elim
  | @outbound packet j hroute => exact (hnone j).elim

/-- **The daemon is silent.** As it is, `main` registers no peer. Whatever the kernel answers, whatever arrives, and
however long it runs, it never sends a datagram and never writes a packet to the device. -/
theorem main_silent (S : Sodium β) (I : Inet) (tun : TunHandle) (n : ℕ)
    {calls : List ((c : Syscall β) × c.Answer)} {held : List ℤ} {p : Sys β (Exit β)}
    (hexec : Exec (descriptors.kernel (0 ≤ ·)) [] (main S I tun n) calls held p) :
    ∀ c ∈ calls, c.1.transmits = false := by
  have hstep : ∀ (d : Daemon β) ev, d.table.peers = [] → (step S d ev).1.table.peers = [] := by
    intro d ev hd
    have hconfig := (step_cases S d ev).config
    rw [hd] at hconfig
    exact List.map_eq_nil_iff.mp hconfig
  have hstart : ∀ d : Daemon β, d.table = peerTableInit → d.table.peers = [] := fun d hd => hd ▸ rfl
  have hkeeps : Keeps (fun c => c.transmits = false) (main S I tun n) _ [] :=
    keeps_mainWith (fun _ h => h) hstep (fun d ev hd => .inl ((step_cases S d ev).effects_eq_nil hd)) hstart tun n
  intro c hc
  obtain ⟨held', hallowed⟩ := hkeeps.allowed hexec c hc
  exact hallowed.2

/-- A short life: there is no device, one datagram arrives, and then the program is told to stop. -/
def toyLife (r : Recv (BitVec 8)) : List ((c : Syscall (BitVec 8)) × c.Answer) :=
  [⟨.sodiumInit, 0⟩, ⟨.randombytes, toyResponderPriv⟩, ⟨.socket .inet true, .ok 3⟩, ⟨.setsockopt 3, ()⟩,
    ⟨.bind 3 (.inet (htons 51820) (zeroBytes 4)), .ok ()⟩, ⟨.openTun, .error (.other 2)⟩,
    ⟨.poll [3], .ok (true, false)⟩, ⟨.recvfrom 3 2048, .ok r⟩, ⟨.close 3, ()⟩]

/-- The datagram it gets. -/
def toyStray : Recv (BitVec 8) := ⟨Endpoint.unset, List.replicate 40 3, toyResponderPriv, 0, 0⟩

theorem exec_toyLife : Exec (descriptors.kernel (0 ≤ ·)) [] (main toySodium toyInet ⟨7, [], 0⟩ 1) (toyLife toyStray) []
    (.ret ⟨0, some (vpnCryptoMemzero toyResponderPriv 32), []⟩) := by
  have hsocket : ∀ x : ℤ, some (3 : ℤ) = some x → 0 ≤ x ∧ x ∉ [] := by
    rintro x ⟨⟩
    decide
  refine .answered ⟨nofun, rfl⟩ (.answered ⟨nofun, rfl⟩ (.answered ⟨hsocket, rfl⟩ ?_))
  refine .answered ⟨nofun, rfl⟩ (.answered ⟨nofun, rfl⟩ (.answered ⟨nofun, rfl⟩ ?_))
  refine .answered ⟨nofun, rfl⟩ (.answered ⟨nofun, rfl⟩ (.answered ⟨nofun, rfl⟩ ?_))
  exact .here _ _

/-- In that life nothing was sent. -/
theorem main_silent_toy : (toyLife toyStray).length = 9 ∧ ∀ c ∈ toyLife toyStray, c.1.transmits = false :=
  ⟨rfl, main_silent toySodium toyInet ⟨7, [], 0⟩ 1 exec_toyLife⟩

end VpnTunnel
