import VpnTunnel.CidrText
import VpnTunnel.KeyText

/-!
# Endpoints in text

This module models `endpoint_parse` and `endpoint_to_string` of `src/transport.c`, which "Supports both IPv4
("192.168.1.1:51820") and IPv6 ("[2001:db8::1]:51820")".

## The model

The two functions work on the octets of a `struct sockaddr_storage`, so that their models do, too
(`EndpointMem`, with the layout of Linux on a little-endian host); `EndpointMem.view` is the endpoint that the
rest of the model speaks of. A port is kept in network byte order, the high octet first. `endpoint_parse` clears
the structure and fills it in as it goes: its model takes the structure as it was and returns it as it is
afterwards, next to the result.

Of `inet_pton` and `inet_ntop` only what is needed is known (`Inet`): the one inverts the other, and the texts of
the two kinds of addresses are not too long for their buffers and do not contain what stands around them.

## The argument

Both kinds of text are split at one place, IPv4 at the last colon and IPv6 at the first bracket, and the laws say
that for the text of an address this is the right one. What `inet_pton` accepts is then the address. What stands
behind the colon goes through `atoi`, and so the parser keeps to its grammar exactly where `atoi` tells a port from
anything else.

## What is proved

* `endpointParse_inet`, `endpointParse_inet6`, `endpointParse_forms` — what the parser does on every text.
* `endpoint_grammar_iff` — on which texts it keeps to the grammar.
* `malformed_endpoint_accepted` — two texts that are no endpoints, accepted with port 80.
* `endpoint_round_trip` — an endpoint that was printed is read back.
-/

namespace VpnTunnel

open Octets CString

/-! ### Endpoints in memory -/

/-- `AF_INET`, as it stands in memory. -/
def afInet : Bytes (BitVec 8) 2 := ⟨[2#8, 0#8], rfl⟩

/-- `AF_INET6`, as it stands in memory. -/
def afInet6 : Bytes (BitVec 8) 2 := ⟨[10#8, 0#8], rfl⟩

/-- The octets of a port in network byte order, `htons`. -/
def htons (port : BitVec 16) : Bytes (BitVec 8) 2 := ⟨[(port >>> 8).setWidth 8, port.setWidth 8], rfl⟩

/-- The port that is kept in two octets, `ntohs`. -/
def ntohs (octets : Bytes (BitVec 8) 2) : BitVec 16 := octets.get 0 ++ octets.get 1

/-- An endpoint in memory, `vpn_endpoint_t`. -/
@[ext]
structure EndpointMem where
  /-- The octets of the socket address, `struct sockaddr_storage`. -/
  storage : Bytes (BitVec 8) 128
  /-- Its length. -/
  addrLen : ℕ
  deriving DecidableEq

namespace EndpointMem

variable (m : EndpointMem)

/-- The address family, `ss_family`. -/
def family : Bytes (BitVec 8) 2 := slice m.storage.toList 0 2 (by simp)

/-- The port, `sin_port` and `sin6_port`. -/
def port : Bytes (BitVec 8) 2 := slice m.storage.toList 2 2 (by simp)

/-- The IPv4 address, `sin_addr`. -/
def inetAddr : Bytes (BitVec 8) 4 := slice m.storage.toList 4 4 (by simp)

/-- The flow label, `sin6_flowinfo`. -/
def flowinfo : Bytes (BitVec 8) 4 := slice m.storage.toList 4 4 (by simp)

/-- The IPv6 address, `sin6_addr`. -/
def inet6Addr : Bytes (BitVec 8) 16 := slice m.storage.toList 8 16 (by simp)

/-- The scope, `sin6_scope_id`. -/
def scopeId : Bytes (BitVec 8) 4 := slice m.storage.toList 24 4 (by simp)

/-- The cleared structure. -/
def cleared : EndpointMem := ⟨zeroBytes 128, 0⟩

/-- Clear the structure, `memset`. -/
def clear (_m : EndpointMem) : EndpointMem := cleared

/-- Overwrite octets of the socket address. -/
def write {n : ℕ} (off : ℕ) (data : Bytes (BitVec 8) n) (h : off + n ≤ 128) : EndpointMem :=
  { m with storage := store m.storage off data.toList (by rwa [data.toList_length]) }

/-- The endpoint that is kept in memory, its fields in the byte order they have there. -/
def view : Endpoint where
  addr :=
    if m.family = afInet then .inet (leReadFrom 16 0 m.port.toList) (leReadFrom 32 0 m.inetAddr.toList)
    else if m.family = afInet6 then
      .inet6 (leReadFrom 16 0 m.port.toList) (leReadFrom 32 0 m.flowinfo.toList) (leReadFrom 128 0 m.inet6Addr.toList)
        (leReadFrom 32 0 m.scopeId.toList)
    else .other
  addrLen := m.addrLen

/-- The cleared structure with a family and a port. -/
def half (family port : Bytes (BitVec 8) 2) : EndpointMem :=
  (cleared.write 0 family (by decide)).write 2 port (by decide)

/-- An IPv4 endpoint. -/
def inet (port : Bytes (BitVec 8) 2) (addr : Bytes (BitVec 8) 4) : EndpointMem :=
  { (half afInet port).write 4 addr (by decide) with addrLen := 16 }

/-- An IPv6 endpoint. -/
def inet6 (port : Bytes (BitVec 8) 2) (addr : Bytes (BitVec 8) 16) : EndpointMem :=
  { (half afInet6 port).write 8 addr (by decide) with addrLen := 28 }

end EndpointMem

/-- `inet_pton` and `inet_ntop`, with what is assumed of them. -/
structure Inet where
  /-- `inet_pton` for `AF_INET`: the octets of the address, or nothing. -/
  pton4 : List (BitVec 8) → Option (Bytes (BitVec 8) 4)
  /-- `inet_ntop` for `AF_INET`. -/
  ntop4 : Bytes (BitVec 8) 4 → List (BitVec 8)
  /-- `inet_pton` for `AF_INET6`. -/
  pton6 : List (BitVec 8) → Option (Bytes (BitVec 8) 16)
  /-- `inet_ntop` for `AF_INET6`. -/
  ntop6 : Bytes (BitVec 8) 16 → List (BitVec 8)
  /-- An IPv4 address that was printed is read back. -/
  pton4_ntop4 : ∀ addr, pton4 (ntop4 addr) = some addr
  /-- The text of an IPv4 address has 1 to 15 characters, and no colon or bracket. -/
  text4 : ∀ t addr, pton4 t = some addr → t ≠ [] ∧ t.length ≤ 15 ∧ 0x3a#8 ∉ t ∧ 0x5b#8 ∉ t
  /-- An IPv6 address that was printed is read back. -/
  pton6_ntop6 : ∀ addr, pton6 (ntop6 addr) = some addr
  /-- The text of an IPv6 address has at most 45 characters, and no closing bracket. -/
  text6 : ∀ t addr, pton6 t = some addr → t.length ≤ 45 ∧ 0x5d#8 ∉ t

variable (I : Inet)

/-- Parse an endpoint, `endpoint_parse`: the structure after the call, and what is returned. -/
def endpointParse (str : List (BitVec 8)) (endpoint : EndpointMem) : EndpointMem × Except Errno Unit :=
  let endpoint := endpoint.clear
  if str.head? = some 0x5b#8 then
    match strchr str 0x5d#8 with
    | none => (endpoint, .error .einval)
    | some closing =>
      if (str.drop (closing + 1)).head? ≠ some 0x3a#8 then (endpoint, .error .einval)
      else
        let ipLen := closing - 1
        if ipLen ≥ 46 then (endpoint, .error .einval)
        else
          let ipBuf := (str.drop 1).take ipLen
          let port := atoi (str.drop (closing + 2))
          if port ≤ 0 ∨ port > 65535 then (endpoint, .error .einval)
          else
            let endpoint := endpoint.write 0 afInet6 (by decide)
            let endpoint := endpoint.write 2 (htons (BitVec.ofInt 16 port)) (by decide)
            match I.pton6 ipBuf with
            | none => (endpoint, .error .einval)
            | some addr => ({ endpoint.write 8 addr (by decide) with addrLen := 28 }, .ok ())
  else
    match strrchr str 0x3a#8 with
    | none => (endpoint, .error .einval)
    | some colon =>
      let ipLen := colon
      if ipLen = 0 ∨ ipLen ≥ 16 then (endpoint, .error .einval)
      else
        let ipBuf := str.take ipLen
        let port := atoi (str.drop (colon + 1))
        if port ≤ 0 ∨ port > 65535 then (endpoint, .error .einval)
        else
          let endpoint := endpoint.write 0 afInet (by decide)
          let endpoint := endpoint.write 2 (htons (BitVec.ofInt 16 port)) (by decide)
          match I.pton4 ipBuf with
          | none => (endpoint, .error .einval)
          | some addr => ({ endpoint.write 4 addr (by decide) with addrLen := 16 }, .ok ())

/-- Print an endpoint, `endpoint_to_string`: the string in the buffer. `inet_ntop` fails when the text does not fit
its buffer. -/
def endpointToString (endpoint : EndpointMem) (bufLen : ℕ) : Except Errno (List (BitVec 8)) :=
  if bufLen = 0 then .error .einval
  else if endpoint.family = afInet then
    let ipBuf := I.ntop4 endpoint.inetAddr
    if ipBuf.length ≥ 16 then .error .enospc
    else
      let text := ipBuf ++ 0x3a#8 :: formatUnsigned (ntohs endpoint.port).toNat
      if text.length ≥ bufLen then .error .enospc else .ok text
  else if endpoint.family = afInet6 then
    let ipBuf := I.ntop6 endpoint.inet6Addr
    if ipBuf.length ≥ 46 then .error .enospc
    else
      let text := 0x5b#8 :: (ipBuf ++ 0x5d#8 :: 0x3a#8 :: formatUnsigned (ntohs endpoint.port).toNat)
      if text.length ≥ bufLen then .error .enospc else .ok text
  else .error .eafnosupport

/-! ### What the parser does -/

section

variable {I} {A B p s : List (BitVec 8)} (m : EndpointMem)

/-- What becomes of a text whose address and port have been told apart. The address is converted by `pton`, when
the port is one, and `half` is what the structure then holds already. -/
def fillEndpoint {α : Type} (port : ℤ) (half : Bytes (BitVec 8) 2 → EndpointMem) (addr : Option α)
    (full : Bytes (BitVec 8) 2 → α → EndpointMem) : EndpointMem × Except Errno Unit :=
  if port ≤ 0 ∨ port > 65535 then (.cleared, .error .einval)
  else
    match addr with
    | none => (half (htons (BitVec.ofInt 16 port)), .error .einval)
    | some addr => (full (htons (BitVec.ofInt 16 port)) addr, .ok ())

section

variable {α : Type} {port : ℤ} {half : Bytes (BitVec 8) 2 → EndpointMem} {addr : Option α}
  {full : Bytes (BitVec 8) 2 → α → EndpointMem}

theorem fillEndpoint_of_no_port (h : ¬ (1 ≤ port ∧ port ≤ 65535)) :
    fillEndpoint port half addr full = (.cleared, .error .einval) :=
  if_pos (by omega)

theorem fillEndpoint_of_port (h : 1 ≤ port ∧ port ≤ 65535) : fillEndpoint port half addr full =
    addr.elim (half (htons (BitVec.ofInt 16 port)), .error .einval)
      fun a => (full (htons (BitVec.ofInt 16 port)) a, .ok ()) := by
  cases addr with
  | none => exact if_neg (by omega)
  | some a => exact if_neg (by omega)

/-- It is accepted if there is a port and an address. -/
theorem fillEndpoint_eq_ok {m : EndpointMem} : fillEndpoint port half addr full = (m, .ok ()) ↔
    (1 ≤ port ∧ port ≤ 65535) ∧ ∃ a, addr = some a ∧ m = full (htons (BitVec.ofInt 16 port)) a := by
  by_cases hport : 1 ≤ port ∧ port ≤ 65535
  · rw [fillEndpoint_of_port hport]
    cases addr with
    | none => simp
    | some a => simp [hport, eq_comm]
  · simp [fillEndpoint_of_no_port hport, hport]

end

/-- A text in brackets is split at the first closing one. -/
theorem endpointParse_inet6 (hB : 0x5d#8 ∉ B) : endpointParse I (0x5b#8 :: (B ++ 0x5d#8 :: 0x3a#8 :: p)) m =
    if B.length ≥ 46 then (.cleared, .error .einval)
    else fillEndpoint (atoi p) (.half afInet6) (I.pton6 B) .inet6 := by
  have hclosing : strchr (0x5b#8 :: (B ++ 0x5d#8 :: 0x3a#8 :: p)) 0x5d#8 = some (B.length + 1) := by
    have hfront : 0x5d#8 ∉ 0x5b#8 :: B := by simp [hB]
    exact strchr_append hfront _
  have hcolon : ((0x5b#8 :: (B ++ 0x5d#8 :: 0x3a#8 :: p)).drop (B.length + 1 + 1)).head? = some 0x3a#8 := by simp
  have hport : (0x5b#8 :: (B ++ 0x5d#8 :: 0x3a#8 :: p)).drop (B.length + 1 + 2) = p := by simp
  have haddr : ((0x5b#8 :: (B ++ 0x5d#8 :: 0x3a#8 :: p)).drop 1).take (B.length + 1 - 1) = B := by simp
  rw [endpointParse, if_pos (show (0x5b#8 :: (B ++ 0x5d#8 :: 0x3a#8 :: p)).head? = some 0x5b#8 from rfl), hclosing]
  dsimp only
  rw [if_neg (not_not.mpr hcolon), hport, haddr]
  cases I.pton6 B <;> rfl

/-- A text without a bracket at its start is split at the last colon. -/
theorem endpointParse_inet (hp : 0x3a#8 ∉ p) (hA : (A ++ 0x3a#8 :: p).head? ≠ some 0x5b#8) :
    endpointParse I (A ++ 0x3a#8 :: p) m =
      if A.length = 0 ∨ A.length ≥ 16 then (.cleared, .error .einval)
      else fillEndpoint (atoi p) (.half afInet) (I.pton4 A) .inet := by
  have hport : (A ++ 0x3a#8 :: p).drop (A.length + 1) = p := by simp
  rw [endpointParse, if_neg hA, strrchr_append hp]
  dsimp only
  rw [hport, List.take_left]
  cases I.pton4 A <;> rfl

/-- Every other text is refused at once. -/
theorem endpointParse_forms (I : Inet) (s : List (BitVec 8)) (m : EndpointMem) :
    (∃ B p, 0x5d#8 ∉ B ∧ s = 0x5b#8 :: (B ++ 0x5d#8 :: 0x3a#8 :: p)) ∨
    (∃ A p, 0x3a#8 ∉ p ∧ s = A ++ 0x3a#8 :: p ∧ s.head? ≠ some 0x5b#8) ∨
    endpointParse I s m = (.cleared, .error .einval) := by
  by_cases hbracket : s.head? = some 0x5b#8
  · cases hclosing : strchr s 0x5d#8 with
    | none =>
      refine .inr (.inr ?_)
      rw [endpointParse, if_pos hbracket, hclosing]
      rfl
    | some closing =>
      by_cases hcolon : (s.drop (closing + 1)).head? = some 0x3a#8
      · obtain ⟨pre, post, rfl, hpre, rfl⟩ := strchr_eq_some.mp hclosing
        have hpost : post.head? = some 0x3a#8 := by simpa using hcolon
        obtain ⟨p, rfl⟩ := List.head?_eq_some_iff.mp hpost
        cases pre with
        | nil => cases hbracket
        | cons x B =>
          cases hbracket
          exact .inl ⟨B, p, fun h => hpre (List.mem_cons_of_mem _ h), rfl⟩
      · refine .inr (.inr ?_)
        rw [endpointParse, if_pos hbracket, hclosing]
        exact if_pos hcolon
  · cases hcolon : strrchr s 0x3a#8 with
    | none =>
      refine .inr (.inr ?_)
      rw [endpointParse, if_neg hbracket, hcolon]
      rfl
    | some colon =>
      obtain ⟨A, p, hs, hp, -⟩ := strrchr_eq_some.mp hcolon
      exact .inr (.inl ⟨A, p, hp, hs, hbracket⟩)

end

/-! ### The grammar -/

/-- The number of a port in text: digits and nothing else, from 1 to 65535. -/
def PortText (p : List (BitVec 8)) : Prop := NumberText 65535 p ∧ 1 ≤ decimal p

/-- The text is an address that `inet_pton` accepts, in brackets if it is an IPv6 one, a colon, and `p`. -/
def EndpointText (s p : List (BitVec 8)) : Prop :=
  (∃ A addr, I.pton4 A = some addr ∧ s = A ++ 0x3a#8 :: p) ∨
  (∃ B addr, I.pton6 B = some addr ∧ s = 0x5b#8 :: (B ++ 0x5d#8 :: 0x3a#8 :: p))

/-- What the parser should do on a text: accept it exactly if it is an address and a port, and store the port in
network byte order. -/
structure EndpointGrammarAt (s : List (BitVec 8)) (m : EndpointMem) : Prop where
  /-- It is accepted exactly if it is an address and a port. -/
  accepts : (endpointParse I s m).2 = .ok () ↔ ∃ p, EndpointText I s p ∧ PortText p
  /-- The port is the one that is written. -/
  port : ∀ p, EndpointText I s p → PortText p → (endpointParse I s m).1.port = htons (BitVec.ofNat 16 (decimal p))

/-- The texts that are accepted: an address and a colon, with something behind it that `atoi` takes for a port and
that has no further colon, or else has brackets in front of it. -/
def EndpointTaken (s : List (BitVec 8)) : Prop := ∃ p, EndpointText I s p ∧ (1 ≤ atoi p ∧ atoi p ≤ 65535) ∧
  (s.head? ≠ some 0x5b#8 → 0x3a#8 ∉ p)

section

variable {I} {A B p q s : List (BitVec 8)} {m : EndpointMem}

/-- The number of a port is what `atoi` makes of it, and there is no colon in it. -/
theorem PortText.atoi_eq (h : PortText p) : atoi p = decimal p ∧ 0x3a#8 ∉ p := by
  have hle := h.1.le
  refine ⟨atoi_of_digits h.1.digits (by omega), fun hmem => ?_⟩
  exact absurd (h.1.digits.isDigit_of_mem _ hmem) (by decide)

/-- The text of an IPv4 address does not begin with a bracket, whatever follows it. -/
theorem head?_ne_bracket {addr : Bytes (BitVec 8) 4} (h : I.pton4 A = some addr) (rest : List (BitVec 8)) :
    (A ++ rest).head? ≠ some 0x5b#8 := by
  obtain ⟨hne, -, -, hbracket⟩ := I.text4 A addr h
  obtain ⟨c, cs, rfl⟩ := List.exists_cons_of_ne_nil hne
  rw [List.cons_append, List.head?_cons, Ne, Option.some.injEq]
  rintro rfl
  exact hbracket List.mem_cons_self

/-- A text is an address, a colon and the rest in one way. -/
theorem EndpointText.unique (hp : EndpointText I s p) (hq : EndpointText I s q) : p = q := by
  rcases hp with ⟨A, a, hA, rfl⟩ | ⟨B, b, hB, rfl⟩
  · rcases hq with ⟨A', a', hA', heq⟩ | ⟨B', b', hB', heq⟩
    · exact (append_cons_inj (I.text4 A a hA).2.2.1 (I.text4 A' a' hA').2.2.1 heq).2
    · exact absurd (by rw [heq]; rfl) (head?_ne_bracket hA (0x3a#8 :: p))
  · rcases hq with ⟨A', a', hA', heq⟩ | ⟨B', b', hB', heq⟩
    · exact absurd (by rw [← heq]; rfl) (head?_ne_bracket hA' (0x3a#8 :: q))
    · have hrest := append_cons_inj (I.text6 B b hB).2 (I.text6 B' b' hB').2 (List.tail_eq_of_cons_eq heq)
      exact List.tail_eq_of_cons_eq hrest.2

/-- **What the parser accepts**: an address, a colon and something that `atoi` takes for a port, in which there is
no further colon if the address is an IPv4 one. -/
theorem endpointParse_eq_ok {m' : EndpointMem} : endpointParse I s m = (m', .ok ()) ↔ ∃ p,
    (1 ≤ atoi p ∧ atoi p ≤ 65535) ∧
      ((∃ A addr, I.pton4 A = some addr ∧ s = A ++ 0x3a#8 :: p ∧ 0x3a#8 ∉ p ∧
        m' = .inet (htons (BitVec.ofInt 16 (atoi p))) addr) ∨
      (∃ B addr, I.pton6 B = some addr ∧ s = 0x5b#8 :: (B ++ 0x5d#8 :: 0x3a#8 :: p) ∧
        m' = .inet6 (htons (BitVec.ofInt 16 (atoi p))) addr)) := by
  constructor
  · intro h
    rcases endpointParse_forms I s m with ⟨B, p, hB, rfl⟩ | ⟨A, p, hp, rfl, hA⟩ | hrefused
    · rw [endpointParse_inet6 m hB] at h
      split at h
      · cases h
      · obtain ⟨hport, addr, haddr, rfl⟩ := fillEndpoint_eq_ok.mp h
        exact ⟨p, hport, .inr ⟨B, addr, haddr, rfl, rfl⟩⟩
    · rw [endpointParse_inet m hp hA] at h
      split at h
      · cases h
      · obtain ⟨hport, addr, haddr, rfl⟩ := fillEndpoint_eq_ok.mp h
        exact ⟨p, hport, .inl ⟨A, addr, haddr, rfl, hp, rfl⟩⟩
    · rw [hrefused] at h
      cases h
  · rintro ⟨p, hport, ⟨A, addr, haddr, rfl, hp, rfl⟩ | ⟨B, addr, haddr, rfl, rfl⟩⟩
    · obtain ⟨hne, hlen, -, -⟩ := I.text4 A addr haddr
      have hpos := List.length_pos_iff.mpr hne
      rw [endpointParse_inet m hp (head?_ne_bracket haddr _), if_neg (by omega)]
      exact fillEndpoint_eq_ok.mpr ⟨hport, addr, haddr, rfl⟩
    · obtain ⟨hlen, hB⟩ := I.text6 B addr haddr
      rw [endpointParse_inet6 m hB, if_neg (by omega)]
      exact fillEndpoint_eq_ok.mpr ⟨hport, addr, haddr, rfl⟩

/-- What is written behind the port leaves the family and the port. -/
theorem EndpointMem.half_write {n off : ℕ} (family port : Bytes (BitVec 8) 2) (data : Bytes (BitVec 8) n)
    (hoff : 4 ≤ off) (h : off + n ≤ 128) :
    ((half family port).write off data h).family = family ∧ ((half family port).write off data h).port = port := by
  have hlen : off ≤ (half family port).storage.toList.length := by rw [List.Vector.toList_length]; omega
  constructor
  · calc ((half family port).write off data h).family
      _ = (half family port).family := slice_writeAt_of_le (by omega) hlen _
      _ = (cleared.write 0 family (by decide)).family := slice_writeAt_of_le (by decide) (by simp) _
      _ = family := slice_writeAt (by simp) _
  · calc ((half family port).write off data h).port
      _ = (half family port).port := slice_writeAt_of_le (by omega) hlen _
      _ = port := slice_writeAt (by simp) _

theorem EndpointMem.port_inet (port : Bytes (BitVec 8) 2) (addr : Bytes (BitVec 8) 4) :
    (EndpointMem.inet port addr).port = port := (half_write afInet port addr (by decide) (by decide)).2

theorem EndpointMem.port_inet6 (port : Bytes (BitVec 8) 2) (addr : Bytes (BitVec 8) 16) :
    (EndpointMem.inet6 port addr).port = port := (half_write afInet6 port addr (by decide) (by decide)).2

theorem endpointParse_isOk_iff : (endpointParse I s m).2 = .ok () ↔ EndpointTaken I s := by
  have hok : (endpointParse I s m).2 = .ok () ↔ ∃ m', endpointParse I s m = (m', .ok ()) :=
    ⟨fun h => ⟨_, Prod.ext rfl h⟩, fun ⟨_, h⟩ => by rw [h]⟩
  rw [hok]
  constructor
  · rintro ⟨m', h⟩
    obtain ⟨p, hport, ⟨A, addr, haddr, rfl, hp, -⟩ | ⟨B, addr, haddr, rfl, -⟩⟩ := endpointParse_eq_ok.mp h
    · exact ⟨p, .inl ⟨A, addr, haddr, rfl⟩, hport, fun _ => hp⟩
    · exact ⟨p, .inr ⟨B, addr, haddr, rfl⟩, hport, fun hbracket => absurd rfl hbracket⟩
  · rintro ⟨p, ⟨A, addr, haddr, rfl⟩ | ⟨B, addr, haddr, rfl⟩, hport, hcolon⟩
    · have hp := hcolon (head?_ne_bracket haddr _)
      exact ⟨_, endpointParse_eq_ok.mpr ⟨p, hport, .inl ⟨A, addr, haddr, rfl, hp, rfl⟩⟩⟩
    · exact ⟨_, endpointParse_eq_ok.mpr ⟨p, hport, .inr ⟨B, addr, haddr, rfl, rfl⟩⟩⟩

/-- The port that is stored is the one that is written. -/
theorem port_endpointParse (htext : EndpointText I s p) (hport : PortText p) :
    (endpointParse I s m).2 = .ok () ∧ (endpointParse I s m).1.port = htons (BitVec.ofNat 16 (decimal p)) := by
  obtain ⟨hatoi, hcolon⟩ := hport.atoi_eq
  have hmin := hport.2
  have hmax := hport.1.le
  have hrange : 1 ≤ atoi p ∧ atoi p ≤ 65535 := by omega
  have hvalue : BitVec.ofInt 16 (atoi p) = BitVec.ofNat 16 (decimal p) := by rw [hatoi, BitVec.ofInt_natCast]
  rcases htext with ⟨A, addr, haddr, rfl⟩ | ⟨B, addr, haddr, rfl⟩
  · have hparse : endpointParse I (A ++ 0x3a#8 :: p) m = _ :=
      endpointParse_eq_ok.mpr ⟨p, hrange, .inl ⟨A, addr, haddr, rfl, hcolon, rfl⟩⟩
    rw [hparse, ← hvalue]
    exact ⟨rfl, EndpointMem.port_inet _ _⟩
  · have hparse : endpointParse I (0x5b#8 :: (B ++ 0x5d#8 :: 0x3a#8 :: p)) m = _ :=
      endpointParse_eq_ok.mpr ⟨p, hrange, .inr ⟨B, addr, haddr, rfl, rfl⟩⟩
    rw [hparse, ← hvalue]
    exact ⟨rfl, EndpointMem.port_inet6 _ _⟩

end

/-- **The parser keeps to its grammar** exactly on a text that is no address with a colon behind it, and on one with a
rest that is the number of a port, or that `atoi` reads as a number out of range, or, behind an IPv4 address, has a
further colon. -/
theorem endpoint_grammar_iff (I : Inet) (s : List (BitVec 8)) (m : EndpointMem) : EndpointGrammarAt I s m ↔
    ∀ p, EndpointText I s p →
      PortText p ∨ (atoi p < 1 ∨ 65535 < atoi p) ∨ (s.head? ≠ some 0x5b#8 ∧ 0x3a#8 ∈ p) := by
  constructor
  · intro h p htext
    by_contra hno
    simp only [not_or, not_and, Int.not_lt] at hno
    obtain ⟨hport, hrange, hcolon⟩ := hno
    obtain ⟨q, hqtext, hq⟩ := h.accepts.mp (endpointParse_isOk_iff.mpr ⟨p, htext, hrange, hcolon⟩)
    exact hport (htext.unique hqtext ▸ hq)
  · intro h
    refine ⟨⟨fun hok => ?_, ?_⟩, fun p htext hport => (port_endpointParse htext hport).2⟩
    · obtain ⟨p, htext, hrange, hcolon⟩ := endpointParse_isOk_iff.mp hok
      rcases h p htext with hport | hout | ⟨hbracket, hmem⟩
      · exact ⟨p, htext, hport⟩
      · omega
      · exact absurd hmem (hcolon hbracket)
    · rintro ⟨p, htext, hport⟩
      exact (port_endpointParse htext hport).1

/-! ### A library to compute with -/

/-- The octets of an address. -/
def addrOctets (x : BitVec 32) : Bytes (BitVec 8) 4 :=
  ⟨[x.extractLsb' 24 8, x.extractLsb' 16 8, x.extractLsb' 8 8, x.extractLsb' 0 8], rfl⟩

/-- An IPv4 address in dotted decimal. -/
def toyNtop4 (addr : Bytes (BitVec 8) 4) : List (BitVec 8) :=
  addressText (addr.get 0) (addr.get 1) (addr.get 2) (addr.get 3)

/-- An IPv6 address in 32 digits. -/
def toyNtop6 (addr : Bytes (BitVec 8) 16) : List (BitVec 8) := addr.toList.flatMap formatHex2

/-- What is read from 32 digits. -/
def toyDigits (t : List (BitVec 8)) : Bytes (BitVec 8) 16 :=
  ⟨(parseKeyHexLoop true t (List.replicate 16 0)).1, length_parseKeyHexLoop _ _ _⟩

theorem addrOctets_vpnIpParse (addr : Bytes (BitVec 8) 4) : addrOctets (vpnIpParse (toyNtop4 addr)) = addr := by
  match addr with
  | ⟨[a, b, c, d], h⟩ =>
    have hread : vpnIpParse (toyNtop4 ⟨[a, b, c, d], h⟩) = a ++ b ++ c ++ d := vpnIpParse_addressText a b c d
    obtain ⟨ha, hb, hc, hd⟩ := extract_octets a b c d
    apply List.Vector.eq
    rw [hread, addrOctets, List.Vector.toList_mk, ha, hb, hc, hd, List.Vector.toList_mk]

/-- A library that prints IPv4 addresses as they should be and IPv6 addresses in plain digits, and reads what it
prints. -/
def toyInet : Inet where
  pton4 t := if toyNtop4 (addrOctets (vpnIpParse t)) = t then some (addrOctets (vpnIpParse t)) else none
  ntop4 := toyNtop4
  pton6 t := if toyNtop6 (toyDigits t) = t then some (toyDigits t) else none
  ntop6 := toyNtop6
  pton4_ntop4 addr := by rw [addrOctets_vpnIpParse, if_pos rfl]
  text4 t addr h := by
    have htext : toyNtop4 (addrOctets (vpnIpParse t)) = t := (Option.ite_none_right_eq_some.mp h).1
    have haddr : AddressText t := htext ▸ addressText_isAddressText _ _ _ _
    have hlen : t.length ≤ 15 := htext ▸ length_addressText_le _ _ _ _
    refine ⟨List.length_pos_iff.mp haddr.length_pos, hlen, fun hmem => ?_, fun hmem => ?_⟩
    · exact absurd (haddr.mem hmem) (by decide)
    · exact absurd (haddr.mem hmem) (by decide)
  pton6_ntop6 addr := by
    have hread : toyDigits (toyNtop6 addr) = addr := List.Vector.eq _ _
      (congrArg Prod.fst (parseKeyHexLoop_flatMap_formatHex2 (by rw [List.length_replicate, addr.toList_length])))
    rw [hread, if_pos rfl]
  text6 t addr h := by
    have htext : toyNtop6 (toyDigits t) = t := (Option.ite_none_right_eq_some.mp h).1
    obtain ⟨hlen, hdigits⟩ := flatMap_formatHex2 (toyDigits t)
    rw [← htext]
    exact ⟨by rw [toyNtop6, hlen]; decide, fun hmem => absurd (hdigits _ hmem).1 (by decide)⟩

/-- **A text that is no endpoint is accepted**: with something behind the port, and with a number that `atoi` cuts to
32 bits. -/
theorem malformed_endpoint_accepted :
    (endpointParse toyInet (ofText "1.2.3.4:80x") .cleared = (.inet (htons 80) (addrOctets 0x01020304), .ok ()) ∧
      ¬ ∃ p, EndpointText toyInet (ofText "1.2.3.4:80x") p ∧ PortText p) ∧
    endpointParse toyInet (ofText "1.2.3.4:4294967376") .cleared = (.inet (htons 80) (addrOctets 0x01020304), .ok ()) ∧
      ¬ ∃ p, EndpointText toyInet (ofText "1.2.3.4:4294967376") p ∧ PortText p := by
  have haddr : toyInet.pton4 (ofText "1.2.3.4") = some (addrOctets 0x01020304) := by decide +kernel
  refine ⟨⟨by decide +kernel, ?_⟩, by decide +kernel, ?_⟩
  · rintro ⟨p, htext, hport⟩
    have htail : EndpointText toyInet (ofText "1.2.3.4:80x") (ofText "80x") := .inl ⟨_, _, haddr, rfl⟩
    rw [htext.unique htail] at hport
    exact absurd hport.1.digits (by decide)
  · rintro ⟨p, htext, hport⟩
    have htail : EndpointText toyInet (ofText "1.2.3.4:4294967376") (ofText "4294967376") := .inl ⟨_, _, haddr, rfl⟩
    rw [htext.unique htail] at hport
    exact absurd hport.1.le (by decide)

/-! ### Printing -/

/-- A port is read from the octets it is kept in. -/
theorem htons_ntohs (octets : Bytes (BitVec 8) 2) : htons (ntohs octets) = octets := by
  match octets with
  | ⟨[a, b], h⟩ =>
    have hhigh : ((a ++ b) >>> 8).setWidth 8 = a := by
      rw [BitVec.setWidth_ushiftRight_eq_extractLsb, BitVec.extractLsb'_append_eq_left]
    have hlow : (a ++ b).setWidth 8 = b := BitVec.setWidth_append_eq_right
    have hpair : htons (a ++ b) = ⟨[a, b], h⟩ := by
      apply List.Vector.eq
      rw [htons, List.Vector.toList_mk, hhigh, hlow, List.Vector.toList_mk]
    exact hpair

/-- The number that is printed for a port is read as the port. -/
theorem atoi_formatUnsigned_ntohs {octets : Bytes (BitVec 8) 2} (h : 1 ≤ (ntohs octets).toNat) :
    (1 ≤ atoi (formatUnsigned (ntohs octets).toNat) ∧ atoi (formatUnsigned (ntohs octets).toNat) ≤ 65535) ∧
      0x3a#8 ∉ formatUnsigned (ntohs octets).toNat ∧
      htons (BitVec.ofInt 16 (atoi (formatUnsigned (ntohs octets).toNat))) = octets := by
  have htext : PortText (formatUnsigned (ntohs octets).toNat) :=
    ⟨numberText_formatUnsigned (by omega), by rwa [decimal_formatUnsigned]⟩
  obtain ⟨hatoi, hcolon⟩ := htext.atoi_eq
  rw [decimal_formatUnsigned] at hatoi
  refine ⟨by omega, hcolon, ?_⟩
  rw [hatoi, BitVec.ofInt_natCast, BitVec.ofNat_toNat, BitVec.setWidth_eq, htons_ntohs]

section

variable {m : EndpointMem}

theorem EndpointMem.view_of_inet (h : m.family = afInet) :
    m.view.addr = .inet (leReadFrom 16 0 m.port.toList) (leReadFrom 32 0 m.inetAddr.toList) := if_pos h

theorem EndpointMem.view_of_inet6 (h : m.family = afInet6) :
    m.view.addr = .inet6 (leReadFrom 16 0 m.port.toList) (leReadFrom 32 0 m.flowinfo.toList)
      (leReadFrom 128 0 m.inet6Addr.toList) (leReadFrom 32 0 m.scopeId.toList) := by
  have hne : ¬ m.family = afInet := by rw [h]; decide
  exact (if_neg hne).trans (if_pos h)

theorem length_formatUnsigned_ntohs (octets : Bytes (BitVec 8) 2) :
    (formatUnsigned (ntohs octets).toNat).length ≤ 5 :=
  length_formatUnsigned_le (by decide) (by omega)

/-- An IPv4 endpoint is printed when the buffer has room for 21 characters and a NUL. -/
theorem endpointToString_inet (I : Inet) {bufLen : ℕ} (hbuf : 22 ≤ bufLen) (h : m.family = afInet) :
    endpointToString I m bufLen = .ok (I.ntop4 m.inetAddr ++ 0x3a#8 :: formatUnsigned (ntohs m.port).toNat) := by
  have hip := (I.text4 _ _ (I.pton4_ntop4 m.inetAddr)).2.1
  have hport := length_formatUnsigned_ntohs m.port
  rw [endpointToString, if_neg (by omega), if_pos h, if_neg (by omega), if_neg]
  rw [List.length_append, List.length_cons]
  omega

/-- An IPv6 endpoint is printed when the buffer has room for 53 characters and a NUL. -/
theorem endpointToString_inet6 (I : Inet) {bufLen : ℕ} (hbuf : 54 ≤ bufLen) (h : m.family = afInet6) :
    endpointToString I m bufLen =
      .ok (0x5b#8 :: (I.ntop6 m.inet6Addr ++ 0x5d#8 :: 0x3a#8 :: formatUnsigned (ntohs m.port).toNat)) := by
  have hne : ¬ m.family = afInet := by rw [h]; decide
  have hip := (I.text6 _ _ (I.pton6_ntop6 m.inet6Addr)).1
  have hport := length_formatUnsigned_ntohs m.port
  rw [endpointToString, if_neg (by omega), if_neg hne, if_pos h, if_neg (by omega), if_neg]
  rw [List.length_cons, List.length_append, List.length_cons, List.length_cons]
  omega

/-- An endpoint that was filled in with the port and the address of another one is equal to it. -/
theorem endpointEqual_inet (h : m.family = afInet) :
    endpointEqual (EndpointMem.inet m.port m.inetAddr).view m.view = true := by
  have hfamily : (EndpointMem.inet m.port m.inetAddr).family = afInet :=
    (EndpointMem.half_write afInet m.port m.inetAddr (by decide) (by decide)).1
  have haddr : (EndpointMem.inet m.port m.inetAddr).inetAddr = m.inetAddr := slice_writeAt (by simp) _
  simp only [endpointEqual, EndpointMem.view_of_inet hfamily, EndpointMem.view_of_inet h, EndpointMem.port_inet, haddr,
    beq_self_eq_true, Bool.and_self]

theorem endpointEqual_inet6 (h : m.family = afInet6) :
    endpointEqual (EndpointMem.inet6 m.port m.inet6Addr).view m.view = true := by
  have hfamily : (EndpointMem.inet6 m.port m.inet6Addr).family = afInet6 :=
    (EndpointMem.half_write afInet6 m.port m.inet6Addr (by decide) (by decide)).1
  have haddr : (EndpointMem.inet6 m.port m.inet6Addr).inet6Addr = m.inet6Addr := slice_writeAt (by simp) _
  simp only [endpointEqual, EndpointMem.view_of_inet6 hfamily, EndpointMem.view_of_inet6 h, EndpointMem.port_inet6,
    haddr, beq_self_eq_true, Bool.and_self]

end

/-- **An endpoint that was printed is read back**, as far as `endpoint_equal` can tell, with the length of its kind of
address. -/
theorem endpoint_round_trip (I : Inet) (m old : EndpointMem) (hfamily : m.family = afInet ∨ m.family = afInet6)
    (hport : 1 ≤ (ntohs m.port).toNat) :
    ∃ text, endpointToString I m 64 = .ok text ∧
      (endpointParse I text old).2 = .ok () ∧ endpointEqual (endpointParse I text old).1.view m.view = true ∧
      (endpointParse I text old).1.addrLen = if m.family = afInet then 16 else 28 := by
  obtain ⟨hrange, hcolon, hstored⟩ := atoi_formatUnsigned_ntohs hport
  rcases hfamily with h | h
  · refine ⟨_, endpointToString_inet I (by decide) h, ?_⟩
    have hparse : endpointParse I (I.ntop4 m.inetAddr ++ 0x3a#8 :: formatUnsigned (ntohs m.port).toNat) old =
        (.inet m.port m.inetAddr, .ok ()) :=
      endpointParse_eq_ok.mpr ⟨_, hrange, .inl ⟨_, _, I.pton4_ntop4 m.inetAddr, rfl, hcolon, by rw [hstored]⟩⟩
    rw [hparse, if_pos h]
    exact ⟨rfl, endpointEqual_inet h, rfl⟩
  · refine ⟨_, endpointToString_inet6 I (by decide) h, ?_⟩
    have hparse : endpointParse I (0x5b#8 :: (I.ntop6 m.inet6Addr ++ 0x5d#8 :: 0x3a#8 ::
        formatUnsigned (ntohs m.port).toNat)) old = (.inet6 m.port m.inet6Addr, .ok ()) :=
      endpointParse_eq_ok.mpr ⟨_, hrange, .inr ⟨_, _, I.pton6_ntop6 m.inet6Addr, rfl, by rw [hstored]⟩⟩
    have hne : ¬ m.family = afInet := by rw [h]; decide
    rw [hparse, if_neg hne]
    exact ⟨rfl, endpointEqual_inet6 h, rfl⟩

/-- So it is for 192.168.1.100, port 51820. -/
theorem endpoint_round_trip_toy :
    ∃ text, endpointToString toyInet (.inet (htons 51820) (addrOctets 0xc0a80164)) 64 = .ok text ∧
      (endpointParse toyInet text .cleared).2 = .ok () ∧
      endpointEqual (endpointParse toyInet text .cleared).1.view
        (EndpointMem.inet (htons 51820) (addrOctets 0xc0a80164)).view = true ∧
      (endpointParse toyInet text .cleared).1.addrLen = 16 :=
  endpoint_round_trip toyInet (.inet (htons 51820) (addrOctets 0xc0a80164)) .cleared (.inl (by decide)) (by decide)

end VpnTunnel
