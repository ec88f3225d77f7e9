import Mathlib.Data.Nat.Notation

/-!
# Endpoints

This module models the endpoints of `src/transport.c`: the address and port a datagram came from or
goes to, and when two of them count as the same.

## The model

A `struct sockaddr_storage` is read through its family: an IPv4 address, an IPv6 address, or anything
else (the cleared storage of a peer that has not been heard from). Addresses and ports are kept in the
byte order they have in the structure, as they are only compared.

## What is proved

* `endpointEqual_self` — an IPv4 or IPv6 endpoint equals itself; no other endpoint does.
-/

namespace VpnTunnel

/-- A socket address, `struct sockaddr_storage`. -/
inductive SockAddr where
  /-- No address family, or one the tunnel does not know. -/
  | other
  /-- `AF_INET`: port and address. -/
  | inet (port : BitVec 16) (addr : BitVec 32)
  /-- `AF_INET6`: port, flow label, address and scope. -/
  | inet6 (port : BitVec 16) (flowinfo : BitVec 32) (addr : BitVec 128) (scopeId : BitVec 32)
  deriving DecidableEq, Repr

/-- The address is an IPv4 or an IPv6 one. -/
def SockAddr.isInet : SockAddr → Bool
  | .other => false
  | .inet _ _ | .inet6 _ _ _ _ => true

/-- An endpoint, `vpn_endpoint_t`. -/
structure Endpoint where
  /-- The socket address. -/
  addr : SockAddr
  /-- Its length in octets. -/
  addrLen : ℕ
  deriving DecidableEq, Repr

/-- The endpoint of a cleared structure. -/
def Endpoint.unset : Endpoint := ⟨.other, 0⟩

/-- Same family, address and port, `endpoint_equal`. Endpoints of an unknown family are never equal,
and of an IPv6 endpoint the flow label and the scope are not compared. -/
def endpointEqual (a b : Endpoint) : Bool :=
  match a.addr, b.addr with
  | .inet port addr, .inet port' addr' => port == port' && addr == addr'
  | .inet6 port _ addr _, .inet6 port' _ addr' _ => port == port' && addr == addr'
  | _, _ => false

theorem endpointEqual_self (e : Endpoint) : endpointEqual e e = e.addr.isInet := by
  unfold endpointEqual SockAddr.isInet
  cases e.addr <;> simp

end VpnTunnel
