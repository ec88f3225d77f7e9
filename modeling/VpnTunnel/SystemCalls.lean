import VpnTunnel.Daemon
import VpnTunnel.EndpointText
import VpnTunnel.Lib.Calls

/-!
# System calls

This module models the functions of `src/transport.c` and `src/tun.c` that open, use and close the UDP socket and the
TUN device.

## The model

A function is a program that makes system calls (`Sys`), and goes on with whatever the kernel answers: each call may
fail, and one that opens something may hand out any descriptor that is not open. The arguments of the calls are those
of the source; of a `struct ifreq` the name and the member that the request reads. What `recvfrom` is answered is a
datagram together with what the clock and the random generator will say while it is handled (`Recv`).

A negative return value is `-errno` after a call has failed, or a code of the function itself (`Failure`).

## What is proved

Each function uses only descriptors that are open, and it is said what it leaves open (`Keeps`):

* `keeps_transportOpen` — the socket it returns, or nothing.
* `keeps_tunOpen` — the device it stores, or nothing. With an MTU that is out of range the structure is left as it was,
  so that a caller must not look at its `fd`.
* `keeps_tunSetIp`, `keeps_tunSetUp` — nothing that was not open.
-/

namespace VpnTunnel

open Octets CString Calls

/-! ### The calls -/

/-- Why a call failed, `errno`. `EWOULDBLOCK` is `EAGAIN`. -/
inductive SysErrno where
  /-- `EAGAIN`. -/
  | eagain
  /-- `EINTR`. -/
  | eintr
  /-- Any other one. -/
  | other (code : ℕ)
  deriving DecidableEq, Repr

/-- The address family of a socket. -/
inductive Domain where
  /-- `AF_INET`. -/
  | inet
  /-- `AF_INET6`. -/
  | inet6
  deriving DecidableEq, Repr

/-- The commands of `fcntl`. -/
inductive Fcntl where
  /-- `F_GETFL`. -/
  | getfl
  /-- `F_SETFL`. -/
  | setfl (flags : BitVec 32)
  /-- `F_GETFD`. -/
  | getfd
  /-- `F_SETFD`. -/
  | setfd (flags : BitVec 32)
  deriving DecidableEq, Repr

/-- The requests of `ioctl`, with what they find in `struct ifreq`. -/
inductive Request where
  /-- `TUNSETIFF`: make a device, of the name and with the flags. -/
  | tunsetiff (name : List (BitVec 8)) (flags : BitVec 16)
  /-- `SIOCSIFMTU`. -/
  | siocsifmtu (name : List (BitVec 8)) (mtu : ℤ)
  /-- `SIOCSIFADDR`. -/
  | siocsifaddr (name : List (BitVec 8)) (addr : Bytes (BitVec 8) 4)
  /-- `SIOCSIFNETMASK`. -/
  | siocsifnetmask (name : List (BitVec 8)) (addr : Bytes (BitVec 8) 4)
  /-- `SIOCGIFFLAGS`. -/
  | siocgifflags (name : List (BitVec 8))
  /-- `SIOCSIFFLAGS`. -/
  | siocsifflags (name : List (BitVec 8)) (flags : BitVec 16)

/-- What `ioctl` leaves in `struct ifreq`: the name of the device, or its flags. -/
@[reducible] def Request.Answer : Request → Type
  | .tunsetiff _ _ => List (BitVec 8)
  | .siocgifflags _ => BitVec 16
  | _ => Unit

/-- The calls the daemon makes. -/
inductive Syscall (β : Type) where
  /-- `sodium_init`. -/
  | sodiumInit
  /-- `randombytes_buf`, for the private key. -/
  | randombytes
  /-- `open` of `/dev/net/tun`. -/
  | openTun
  /-- `socket` for datagrams, with `SOCK_NONBLOCK | SOCK_CLOEXEC` or without. -/
  | socket (domain : Domain) (nonblock : Bool)
  /-- `fcntl`. -/
  | fcntl (fd : ℤ) (cmd : Fcntl)
  /-- `setsockopt`, to reuse the address. -/
  | setsockopt (fd : ℤ)
  /-- `bind`. -/
  | bind (fd : ℤ) (addr : EndpointMem)
  /-- `ioctl`. -/
  | ioctl (fd : ℤ) (request : Request)
  /-- `close`. -/
  | close (fd : ℤ)
  /-- `poll`, for input. -/
  | poll (fds : List ℤ)
  /-- `recvfrom`. -/
  | recvfrom (fd : ℤ) (maxLen : ℕ)
  /-- `sendto`. -/
  | sendto (fd : ℤ) (dest : Endpoint) (buf : List β)
  /-- `read`. -/
  | read (fd : ℤ) (bufLen : ℕ)
  /-- `write`. -/
  | write (fd : ℤ) (buf : List β)

/-- What they are answered. -/
@[reducible] def Syscall.Answer {β : Type} : Syscall β → Type
  | .sodiumInit => ℤ
  | .randombytes => Bytes β 32
  | .openTun | .socket _ _ => Except SysErrno ℤ
  | .fcntl _ _ => Except SysErrno (BitVec 32)
  | .setsockopt _ | .close _ => Unit
  | .bind _ _ => Except SysErrno Unit
  | .ioctl _ request => Except SysErrno request.Answer
  | .poll _ => Except SysErrno (Bool × Bool)
  | .recvfrom _ _ => Except SysErrno (Recv β)
  | .sendto _ _ _ | .write _ _ => Except SysErrno ℕ
  | .read _ _ => Except SysErrno (List β)

/-- A program that makes these calls. -/
abbrev Sys (β : Type) : Type → Type := Prog (Syscall β) Syscall.Answer

/-- Make a call. -/
abbrev sys {β : Type} (c : Syscall β) : Sys β c.Answer := .make c

/-- What a function that failed returns: a code of its own, or what a call has failed with. -/
inductive Failure where
  /-- A code of its own. -/
  | code (e : Errno)
  /-- That of a call. -/
  | sys (e : SysErrno)
  deriving DecidableEq, Repr

variable {β : Type} (I : Inet)

/-! ### The socket -/

/-- The address to bind to, the first part of `transport_open`. -/
def bindAddress (bindIp : Option (List (BitVec 8))) (port : BitVec 16) : Except Errno (Domain × EndpointMem) :=
  match bindIp with
  | some ip =>
    if (strchr ip 0x3a#8).isSome then
      if ip ≠ [] ∧ ip ≠ ofText "::" then
        match I.pton6 ip with
        | none => .error .einval
        | some addr => .ok (.inet6, .inet6 (htons port) addr)
      else .ok (.inet6, .inet6 (htons port) (zeroBytes 16))
    else if ip ≠ [] ∧ ip ≠ ofText "0.0.0.0" then
      match I.pton4 ip with
      | none => .error .einval
      | some addr => .ok (.inet, .inet (htons port) addr)
    else .ok (.inet, .inet (htons port) (zeroBytes 4))
  | none => .ok (.inet, .inet (htons port) (zeroBytes 4))

/-- Add a flag to those of a descriptor, if they can be read. -/
def addFlag (fd : ℤ) (get : Fcntl) (set : BitVec 32 → Fcntl) (flag : BitVec 32) : Sys β Unit := do
  match ← sys (.fcntl fd get) with
  | .ok flags =>
    let _ ← sys (.fcntl fd (set (flags ||| flag)))
    return ()
  | .error _ => return ()

/-- A socket that does not block, with a fallback for "older kernels". -/
def openSocket (domain : Domain) : Sys β (Except Failure ℤ) := do
  match ← sys (.socket domain true) with
  | .ok fd => return .ok fd
  | .error _ =>
    match ← sys (.socket domain false) with
    | .error e => return .error (.sys e)
    | .ok fd =>
      -- `O_NONBLOCK` and `FD_CLOEXEC`
      addFlag fd .getfl .setfl 0x800#32
      addFlag fd .getfd .setfd 1#32
      return .ok fd

/-- Open and bind the socket, `transport_open`. -/
def transportOpen (bindIp : Option (List (BitVec 8))) (port : BitVec 16) : Sys β (Except Failure ℤ) := do
  match bindAddress I bindIp port with
  | .error e => return .error (.code e)
  | .ok (domain, addr) =>
    match ← openSocket domain with
    | .error e => return .error e
    | .ok fd =>
      let _ ← sys (.setsockopt fd)
      match ← sys (.bind fd addr) with
      | .error e =>
        let _ ← sys (.close fd)
        return .error (.sys e)
      | .ok _ => return .ok fd

/-- Send a datagram, `transport_send`: how much was sent. -/
def transportSend (fd : ℤ) (dest : Endpoint) (buf : List β) : Sys β (Except Failure ℕ) := do
  if fd < 0 ∨ buf.length = 0 then return .error (.code .einval)
  else if buf.length > 2048 then return .error (.code .emsgsize)
  else
    match ← sys (.sendto fd dest buf) with
    | .error .eagain | .error .eintr => return .ok 0
    | .error e => return .error (.sys e)
    | .ok sent => return .ok sent

/-- Receive a datagram, `transport_recv`, if there is one. -/
def transportRecv (fd : ℤ) (maxLen : ℕ) : Sys β (Except Failure (Option (Recv β))) := do
  if fd < 0 ∨ maxLen = 0 then return .error (.code .einval)
  else
    match ← sys (.recvfrom fd maxLen) with
    | .error .eagain | .error .eintr => return .ok none
    | .error e => return .error (.sys e)
    | .ok r => return .ok (some r)

/-- Close the socket, `transport_close`: what the descriptor is set to. -/
def transportClose (fd : ℤ) : Sys β ℤ := do
  if 0 ≤ fd then
    let _ ← sys (.close fd)
    return -1
  else return fd

/-! ### The device -/

/-- A TUN device, `tun_device_t`. -/
structure TunHandle where
  /-- The descriptor, `-1` if there is none. -/
  fd : ℤ
  /-- The name the kernel has given it. -/
  name : List (BitVec 8)
  /-- The longest packet it takes. -/
  mtu : ℤ

/-- The device as the event loop sees it. -/
def TunHandle.view (tun : TunHandle) : TunDevice := ⟨0 ≤ tun.fd, tun.mtu.toNat⟩

/-- What `snprintf` makes of a name in `IFNAMSIZ` octets. -/
def ifname (name : List (BitVec 8)) : List (BitVec 8) := name.take 15

/-- Open a device, `tun_open`: the structure after the call, and what is returned. -/
def tunOpen (tun : TunHandle) (devName : Option (List (BitVec 8))) (mtu : ℤ) :
    Sys β (TunHandle × Except Failure Unit) := do
  if mtu < 576 ∨ mtu > 2048 then return (tun, .error (.code .einval))
  else
    let tun : TunHandle := ⟨-1, [], mtu⟩
    match ← sys .openTun with
    | .error e => return (tun, .error (.sys e))
    | .ok fd =>
      -- `IFF_TUN | IFF_NO_PI`; without a name the kernel chooses one
      match ← sys (.ioctl fd (.tunsetiff (ifname (devName.getD [])) 0x1001#16)) with
      | .error e =>
        let _ ← sys (.close fd)
        return (tun, .error (.sys e))
      | .ok name =>
        let tun := { tun with fd := fd, name := ifname name }
        match ← sys (.socket .inet false) with
        | .error _ => return (tun, .ok ())
        | .ok sock =>
          let _ ← sys (.ioctl sock (.siocsifmtu name mtu))
          let _ ← sys (.close sock)
          return (tun, .ok ())

/-- Give the device an address, `tun_set_ip`. -/
def tunSetIp (tun : TunHandle) (ipStr netmaskStr : List (BitVec 8)) : Sys β (Except Failure Unit) := do
  if tun.fd < 0 then return .error (.code .einval)
  else
    match ← sys (.socket .inet false) with
    | .error e => return .error (.sys e)
    | .ok sock =>
      match I.pton4 ipStr with
      | none =>
        let _ ← sys (.close sock)
        return .error (.code .einval)
      | some addr =>
        match ← sys (.ioctl sock (.siocsifaddr tun.name addr)) with
        | .error e =>
          let _ ← sys (.close sock)
          return .error (.sys e)
        | .ok _ =>
          match I.pton4 netmaskStr with
          | none =>
            let _ ← sys (.close sock)
            return .error (.code .einval)
          | some netmask =>
            match ← sys (.ioctl sock (.siocsifnetmask tun.name netmask)) with
            | .error e =>
              let _ ← sys (.close sock)
              return .error (.sys e)
            | .ok _ =>
              let _ ← sys (.close sock)
              return .ok ()

/-- Bring the device up, `tun_set_up`. -/
def tunSetUp (tun : TunHandle) : Sys β (Except Failure Unit) := do
  if tun.fd < 0 then return .error (.code .einval)
  else
    match ← sys (.socket .inet false) with
    | .error e => return .error (.sys e)
    | .ok sock =>
      match ← sys (.ioctl sock (.siocgifflags tun.name)) with
      | .error e =>
        let _ ← sys (.close sock)
        return .error (.sys e)
      | .ok flags =>
        -- `IFF_UP | IFF_RUNNING`
        match ← sys (.ioctl sock (.siocsifflags tun.name (flags ||| 0x41#16))) with
        | .error e =>
          let _ ← sys (.close sock)
          return .error (.sys e)
        | .ok _ =>
          let _ ← sys (.close sock)
          return .ok ()

/-- Read a packet, `tun_read`, if there is one. -/
def tunRead (tun : TunHandle) (bufLen : ℕ) : Sys β (Except Failure (List β)) := do
  if tun.fd < 0 ∨ bufLen = 0 then return .error (.code .einval)
  else
    match ← sys (.read tun.fd bufLen) with
    | .error .eagain | .error .eintr => return .ok []
    | .error e => return .error (.sys e)
    | .ok packet => return .ok packet

/-- Write a packet, `tun_write`, after the checks that `tunWrite` makes: how much was written. -/
def tunWriteOut (tun : TunHandle) (buf : List β) : Sys β (Except Failure ℕ) := do
  match tunWrite tun.view buf with
  | .error e => return .error (.code e)
  | .ok buf =>
    match ← sys (.write tun.fd buf) with
    | .error .eagain | .error .eintr => return .ok 0
    | .error e => return .error (.sys e)
    | .ok n => return .ok n

/-- Close the device, `tun_close`. -/
def tunClose (tun : TunHandle) : Sys β TunHandle := do
  if 0 ≤ tun.fd then
    let _ ← sys (.close tun.fd)
    return { tun with fd := -1 }
  else return tun

/-! ### Descriptors -/

/-- What the calls have to do with descriptors. -/
def descriptors : Resources (Syscall β) Syscall.Answer ℤ where
  uses
    | .fcntl fd _ | .setsockopt fd | .bind fd _ | .ioctl fd _ | .close fd | .recvfrom fd _ | .sendto fd _ _
    | .read fd _ | .write fd _ => [fd]
    | .poll fds => fds
    | .sodiumInit | .randombytes | .openTun | .socket _ _ => []
  acquired
    | .openTun, r | .socket _ _, r => r.toOption
    | _, _ => none
  released
    | .close fd => some fd
    | _ => none

/-- The program makes only calls of some kind, on descriptors it holds, and has `Q` when it returns, of what it
returns and of the descriptors it then holds. -/
abbrev Keeps {α : Type} (P : Syscall β → Prop) (p : Sys β α) (Q : α → List ℤ → Prop) (held : List ℤ) : Prop :=
  Meets (descriptors.kernel (0 ≤ ·)) (descriptors.Owned P) p Q held

/-- The call lets something out of the daemon: a datagram or a packet. -/
def Syscall.transmits : Syscall β → Bool
  | .sendto _ _ _ | .write _ _ => true
  | _ => false

section

variable {P : Syscall β → Prop} {held : List ℤ} {fd : ℤ} {I}

theorem handed_out {Q : Except SysErrno ℤ → List ℤ → Prop} (herror : ∀ e, Q (.error e) held)
    (hok : ∀ fd, 0 ≤ fd → fd ∉ held → Q (.ok fd) (fd :: held)) (r : Except SysErrno ℤ) :
    (r.toOption = none → Q r held) ∧ ∀ fd, r.toOption = some fd → 0 ≤ fd → fd ∉ held → Q r (fd :: held) := by
  cases r with
  | error e => exact ⟨fun _ => herror e, nofun⟩
  | ok fd =>
    refine ⟨nofun, fun x hx hvalid hfresh => ?_⟩
    obtain rfl := Option.some.inj hx
    exact hok fd hvalid hfresh

/-- A socket is opened, or it fails. -/
theorem keeps_socket {domain : Domain} {nonblock : Bool} {Q : Except SysErrno ℤ → List ℤ → Prop}
    (hP : P (.socket domain nonblock)) (herror : ∀ e, Q (.error e) held)
    (hok : ∀ fd, 0 ≤ fd → fd ∉ held → Q (.ok fd) (fd :: held)) :
    Keeps P (sys (.socket domain nonblock)) Q held :=
  Resources.meets_acquire ⟨nofun, hP⟩ rfl (handed_out herror hok)

/-- A device is opened, or it fails. -/
theorem keeps_openTun {Q : Except SysErrno ℤ → List ℤ → Prop} (hP : P .openTun)
    (herror : ∀ e, Q (.error e) held) (hok : ∀ fd, 0 ≤ fd → fd ∉ held → Q (.ok fd) (fd :: held)) :
    Keeps P (sys .openTun) Q held :=
  Resources.meets_acquire ⟨nofun, hP⟩ rfl (handed_out herror hok)

/-- A descriptor is closed. -/
theorem keeps_close {Q : Unit → List ℤ → Prop} (hP : P (.close fd)) (hfd : fd ∈ held) (hQ : Q () (held.erase fd)) :
    Keeps P (sys (.close fd)) Q held :=
  Resources.meets_release ⟨fun _ hx => List.mem_singleton.mp hx ▸ hfd, hP⟩ (fun _ => rfl) rfl fun _ => hQ

/-- The descriptor that was obtained last is closed. -/
theorem keeps_close_last {Q : Unit → List ℤ → Prop} (hP : P (.close fd)) (hQ : Q () held) :
    Keeps P (sys (.close fd)) Q (fd :: held) := by
  refine keeps_close hP List.mem_cons_self ?_
  rw [List.erase_cons_head]
  exact hQ

/-- A call on one descriptor, that neither hands one out nor closes it. -/
def Syscall.On (c : Syscall β) (fd : ℤ) : Prop :=
  descriptors.uses c = [fd] ∧ (∀ r, descriptors.acquired c r = none) ∧ descriptors.released c = none

theorem keeps_on {c : Syscall β} {Q : c.Answer → List ℤ → Prop} (hc : c.On fd) (hP : P c) (hfd : fd ∈ held)
    (hQ : ∀ r, Q r held) : Keeps P (sys c) Q held := by
  refine Resources.meets_use ⟨fun x hx => ?_, hP⟩ hc.2.1 hc.2.2 hQ
  rw [hc.1, List.mem_singleton] at hx
  exact hx ▸ hfd

/-- One more descriptor is held if the function has returned one, and else nothing has changed. -/
def Opened (held : List ℤ) : Except Failure ℤ → List ℤ → Prop
  | .ok fd, held' => 0 ≤ fd ∧ fd ∉ held ∧ held' = fd :: held
  | .error _, held' => held' = held

/-- What `tun_open` leaves in the structure: a descriptor that is held if it has succeeded, and `-1` if a call has
failed. If the MTU is out of range it leaves the structure as it was. -/
def TunOpened (tun : TunHandle) (mtu : ℤ) (held : List ℤ) : TunHandle × Except Failure Unit → List ℤ → Prop
  | (tun', .ok _), held' => (576 ≤ mtu ∧ mtu ≤ 2048) ∧ 0 ≤ tun'.fd ∧ tun'.fd ∉ held ∧ tun'.mtu = mtu ∧
      held' = tun'.fd :: held
  | (tun', .error _), held' => held' = held ∧
      if 576 ≤ mtu ∧ mtu ≤ 2048 then tun'.fd = -1 ∧ tun'.mtu = mtu else tun' = tun

/-- If the MTU is in range, the device is held exactly if there is one. -/
theorem TunOpened.held_eq {tun tun' : TunHandle} {mtu : ℤ} {rc : Except Failure Unit} {held' : List ℤ}
    (h : TunOpened tun mtu held (tun', rc) held') (hmtu : 576 ≤ mtu ∧ mtu ≤ 2048) :
    held' = (if 0 ≤ tun'.fd then [tun'.fd] else []) ++ held ∧ (0 ≤ tun'.fd → tun'.fd ∉ held) := by
  cases rc with
  | ok _ =>
    obtain ⟨-, hfd, hfresh, -, rfl⟩ := h
    rw [if_pos hfd]
    exact ⟨rfl, fun _ => hfresh⟩
  | error e =>
    obtain ⟨rfl, hrange⟩ := h
    rw [if_pos hmtu] at hrange
    rw [hrange.1, if_neg (by decide)]
    exact ⟨rfl, nofun⟩

theorem keeps_transportSend (hP : ∀ dest buf, P (.sendto fd dest buf)) (dest : Endpoint) (buf : List β)
    (hfd : fd ∈ held) : Keeps P (transportSend fd dest buf) (fun _ held' => held' = held) held := by
  unfold transportSend
  split
  · exact rfl
  · split
    · exact rfl
    · refine meets_bind.mpr (keeps_on ⟨rfl, fun _ => rfl, rfl⟩ (hP _ _) hfd fun r => ?_)
      rcases r with (_ | _ | _) | _ <;> exact rfl

theorem keeps_tunWriteOut {tun : TunHandle} (hP : ∀ buf, P (.write tun.fd buf)) (buf : List β)
    (htun : 0 ≤ tun.fd → tun.fd ∈ held) :
    Keeps P (tunWriteOut tun buf) (fun _ held' => held' = held) held := by
  unfold tunWriteOut
  split
  · exact rfl
  · next packet hok =>
    have hopen : 0 ≤ tun.fd := by
      by_contra hfd
      rw [tunWrite, TunHandle.view, decide_eq_false hfd] at hok
      cases hok
    refine meets_bind.mpr (keeps_on ⟨rfl, fun _ => rfl, rfl⟩ (hP _) (htun hopen) fun r => ?_)
    rcases r with (_ | _ | _) | _ <;> exact rfl

/-! Every other function keeps to calls that let nothing out. -/

section

variable (hP : ∀ c : Syscall β, c.transmits = false → P c)

include hP

theorem keeps_addFlag {get : Fcntl} {set : BitVec 32 → Fcntl} {flag : BitVec 32} {Q : Unit → List ℤ → Prop}
    (hfd : fd ∈ held) (hQ : Q () held) : Keeps P (addFlag fd get set flag) Q held := by
  refine meets_bind.mpr (keeps_on ⟨rfl, fun _ => rfl, rfl⟩ (hP _ rfl) hfd fun r => ?_)
  cases r with
  | ok flags => exact meets_bind.mpr (keeps_on ⟨rfl, fun _ => rfl, rfl⟩ (hP _ rfl) hfd fun _ => hQ)
  | error e => exact hQ

theorem keeps_openSocket (domain : Domain) (held : List ℤ) :
    Keeps P (openSocket domain) (Opened held) held := by
  refine meets_bind.mpr (keeps_socket (hP _ rfl) (fun _ => ?_) fun fd hfd hfresh => ?_)
  · refine meets_bind.mpr (keeps_socket (hP _ rfl) (fun e => ?_) fun fd hfd hfresh => ?_)
    · exact rfl
    · refine meets_bind.mpr (keeps_addFlag hP List.mem_cons_self ?_)
      refine meets_bind.mpr (keeps_addFlag hP List.mem_cons_self ?_)
      exact ⟨hfd, hfresh, rfl⟩
  · exact ⟨hfd, hfresh, rfl⟩

/-- **`transport_open` returns a descriptor it holds, or holds none.** -/
theorem keeps_transportOpen (bindIp : Option (List (BitVec 8))) (port : BitVec 16) (held : List ℤ) :
    Keeps P (transportOpen I bindIp port) (Opened held) held := by
  unfold transportOpen
  split
  · exact rfl
  · next domain addr _ =>
    refine meets_bind.mpr ((keeps_openSocket hP domain held).mono fun rc held' hrc => ?_)
    cases rc with
    | error e => exact hrc
    | ok fd =>
      obtain ⟨hfd, hfresh, rfl⟩ := hrc
      refine meets_bind.mpr (keeps_on ⟨rfl, fun _ => rfl, rfl⟩ (hP _ rfl) List.mem_cons_self fun _ => ?_)
      refine meets_bind.mpr (keeps_on ⟨rfl, fun _ => rfl, rfl⟩ (hP _ rfl) List.mem_cons_self fun r => ?_)
      cases r with
      | error e => exact meets_bind.mpr (keeps_close_last (hP _ rfl) rfl)
      | ok _ => exact ⟨hfd, hfresh, rfl⟩

theorem keeps_tunOpen (tun : TunHandle) (devName : Option (List (BitVec 8))) (mtu : ℤ) (held : List ℤ) :
    Keeps P (tunOpen tun devName mtu) (TunOpened tun mtu held) held := by
  unfold tunOpen
  split
  · next hmtu =>
    refine ⟨rfl, ?_⟩
    rw [if_neg (by omega)]
  · next hmtu =>
    have hrange : 576 ≤ mtu ∧ mtu ≤ 2048 := by omega
    refine meets_bind.mpr (keeps_openTun (hP _ rfl) (fun e => ?_) fun fd hfd hfresh => ?_)
    · refine ⟨rfl, ?_⟩
      rw [if_pos hrange]
      exact ⟨rfl, rfl⟩
    · refine meets_bind.mpr (keeps_on ⟨rfl, fun _ => rfl, rfl⟩ (hP _ rfl) List.mem_cons_self fun r => ?_)
      cases r with
      | error e =>
        refine meets_bind.mpr (keeps_close_last (hP _ rfl) ⟨rfl, ?_⟩)
        rw [if_pos hrange]
        exact ⟨rfl, rfl⟩
      | ok name =>
        have hopened : TunOpened tun mtu held (⟨fd, ifname name, mtu⟩, .ok ()) (fd :: held) :=
          ⟨hrange, hfd, hfresh, rfl, rfl⟩
        refine meets_bind.mpr (keeps_socket (hP _ rfl) (fun _ => hopened) fun sock _ _ => ?_)
        refine meets_bind.mpr (keeps_on ⟨rfl, fun _ => rfl, rfl⟩ (hP _ rfl) List.mem_cons_self fun _ => ?_)
        exact meets_bind.mpr (keeps_close_last (hP _ rfl) hopened)

/-- `tun_set_ip` closes the socket it opens. -/
theorem keeps_tunSetIp (tun : TunHandle) (ipStr netmaskStr : List (BitVec 8)) (held : List ℤ) :
    Keeps P (tunSetIp I tun ipStr netmaskStr) (fun _ held' => held' = held) held := by
  unfold tunSetIp
  split
  · exact rfl
  · refine meets_bind.mpr (keeps_socket (hP _ rfl) (fun _ => rfl) fun sock _ _ => ?_)
    cases I.pton4 ipStr with
    | none => exact meets_bind.mpr (keeps_close_last (hP _ rfl) rfl)
    | some addr =>
      refine meets_bind.mpr (keeps_on ⟨rfl, fun _ => rfl, rfl⟩ (hP _ rfl) List.mem_cons_self fun r => ?_)
      cases r with
      | error e => exact meets_bind.mpr (keeps_close_last (hP _ rfl) rfl)
      | ok _ =>
        cases I.pton4 netmaskStr with
        | none => exact meets_bind.mpr (keeps_close_last (hP _ rfl) rfl)
        | some netmask =>
          refine meets_bind.mpr (keeps_on ⟨rfl, fun _ => rfl, rfl⟩ (hP _ rfl) List.mem_cons_self fun r => ?_)
          cases r with
          | error e => exact meets_bind.mpr (keeps_close_last (hP _ rfl) rfl)
          | ok _ => exact meets_bind.mpr (keeps_close_last (hP _ rfl) rfl)

/-- `tun_set_up` closes the socket it opens. -/
theorem keeps_tunSetUp (tun : TunHandle) (held : List ℤ) :
    Keeps P (tunSetUp tun) (fun _ held' => held' = held) held := by
  unfold tunSetUp
  split
  · exact rfl
  · refine meets_bind.mpr (keeps_socket (hP _ rfl) (fun _ => rfl) fun sock _ _ => ?_)
    refine meets_bind.mpr (keeps_on ⟨rfl, fun _ => rfl, rfl⟩ (hP _ rfl) List.mem_cons_self fun r => ?_)
    cases r with
    | error e => exact meets_bind.mpr (keeps_close_last (hP _ rfl) rfl)
    | ok flags =>
      refine meets_bind.mpr (keeps_on ⟨rfl, fun _ => rfl, rfl⟩ (hP _ rfl) List.mem_cons_self fun r => ?_)
      cases r with
      | error e => exact meets_bind.mpr (keeps_close_last (hP _ rfl) rfl)
      | ok _ => exact meets_bind.mpr (keeps_close_last (hP _ rfl) rfl)

theorem keeps_transportRecv (maxLen : ℕ) (hfd : fd ∈ held) :
    Keeps P (transportRecv fd maxLen) (fun _ held' => held' = held) held := by
  unfold transportRecv
  split
  · exact rfl
  · refine meets_bind.mpr (keeps_on ⟨rfl, fun _ => rfl, rfl⟩ (hP _ rfl) hfd fun r => ?_)
    rcases r with (_ | _ | _) | _ <;> exact rfl

theorem keeps_transportClose (hfd : 0 ≤ fd) (hheld : fd ∈ held) :
    Keeps P (transportClose fd) (fun fd' held' => fd' = -1 ∧ held' = held.erase fd) held := by
  unfold transportClose
  rw [if_pos hfd]
  exact meets_bind.mpr (keeps_close (hP _ rfl) hheld ⟨rfl, rfl⟩)

theorem keeps_tunRead {tun : TunHandle} (bufLen : ℕ) (htun : 0 ≤ tun.fd → tun.fd ∈ held) :
    Keeps P (tunRead tun bufLen) (fun _ held' => held' = held) held := by
  unfold tunRead
  split
  · exact rfl
  · next hopen =>
    refine meets_bind.mpr (keeps_on ⟨rfl, fun _ => rfl, rfl⟩ (hP _ rfl) (htun (by omega)) fun r => ?_)
    rcases r with (_ | _ | _) | _ <;> exact rfl

/-- `tun_close` closes the device, if there is one. -/
theorem keeps_tunClose {tun : TunHandle} (hheld : held = if 0 ≤ tun.fd then [tun.fd] else []) :
    Keeps P (tunClose tun) (fun tun' held' => tun'.fd < 0 ∧ held' = []) held := by
  subst hheld
  unfold tunClose
  split
  · refine meets_bind.mpr (keeps_close_last (hP _ rfl) ⟨?_, rfl⟩)
    dsimp only
    omega
  · next hfd => exact ⟨by omega, rfl⟩

end

end

end VpnTunnel
