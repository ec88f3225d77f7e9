import VpnTunnel.EndpointText
import VpnTunnel.Packet

/-!
# Output parameters

The parsers write what they find to a structure of the caller. This module asks what is in it when they return an
error, and whether it is then as it was before the call.

## The model

The models of `packet_parse_handshake_init`, `packet_parse_handshake_resp`, `packet_parse_data` and `vpn_cidr_parse`
return what was written when they succeed. Next to each there is one with the structure as the caller passes it
(`…Into`), which is filled in field by field in the order of the source. It is shown to be the same function: it
writes the whole structure, or nothing (`writeBack`). `endpoint_parse` and `config_parse_key_hex` have the structure
as a parameter already.

## The argument

The first four make all their checks before they write. The other two do not. `endpoint_parse` begins by clearing
the structure, and has stored the family and the port when it finds that there is no address;
`config_parse_key_hex` has overwritten one octet for each pair in front of the one that does not read. So they leave
things as they were only if these were already as they leave them.

## What is proved

* `packetParseHandshakeInitInto_eq`, `packetParseHandshakeRespInto_eq`, `packetParseDataInto_eq`,
  `vpnCidrParseInto_eq` — the four write everything or nothing.
* `endpointParse_atomic_iff`, `configParseKeyHex_atomic_iff` — when the other two do.
* `parsers_atomic_iff` — all six.
* `partial_output` — an endpoint that is lost and a key that is half overwritten.
-/

namespace VpnTunnel

open Octets CString

variable {α β : Type}

/-- A call that returns an error has left the structure as it was, where `r` is the structure after the call and the
result. -/
def Atomic (out : α) (r : α × Except Errno Unit) : Prop := ∀ e, r.2 = .error e → r.1 = out

/-- Write everything, or nothing. -/
def writeBack (out : α) : Except Errno α → α × Except Errno Unit
  | .ok a => (a, .ok ())
  | .error e => (out, .error e)

theorem atomic_writeBack (out : α) (r : Except Errno α) : Atomic out (writeBack out r) := by
  intro e h
  cases r with
  | error e' => rfl
  | ok a => cases h

/-- A call that fails and leaves something else. -/
theorem not_atomic_of_ne {out out' : α} {e : Errno} {r : α × Except Errno Unit} (hr : r = (out', .error e))
    (hne : out' ≠ out) : ¬ Atomic out r := by
  intro h
  rw [hr] at h
  exact hne (h e rfl)

/-! ### Parsers that check first -/

section

variable [Octet β]

theorem packetParseHandshakeInitInto_eq (buf : List β) (out : PacketHandshakeInit β) :
    packetParseHandshakeInitInto buf out = writeBack out (packetParseHandshakeInit buf) := by
  unfold packetParseHandshakeInitInto packetParseHandshakeInit
  split
  · rfl
  · split <;> rfl

theorem packetParseHandshakeRespInto_eq (buf : List β) (out : PacketHandshakeResp β) :
    packetParseHandshakeRespInto buf out = writeBack out (packetParseHandshakeResp buf) := by
  unfold packetParseHandshakeRespInto packetParseHandshakeResp
  split
  · rfl
  · split <;> rfl

theorem packetParseDataInto_eq (buf : List β) (out : PacketData β) :
    packetParseDataInto buf out = writeBack out (packetParseData buf) := by
  unfold packetParseDataInto packetParseData
  split
  · rfl
  · split
    · rfl
    · split <;> rfl

end

theorem vpnCidrParseInto_eq (str : List (BitVec 8)) (cidr : Cidr) :
    vpnCidrParseInto str cidr = writeBack cidr (vpnCidrParse str) := by
  unfold vpnCidrParseInto vpnCidrParse
  cases cidrParts str with
  | error e => rfl
  | ok parts =>
    simp only [bind, Except.bind]
    split <;> rfl

/-! ### Parsers that write first -/

/-- The text is split into an address of a length that fits and a port, so that `endpoint_parse` stores the family and
the port before it turns to the address. -/
def PortStored (s : List (BitVec 8)) (family : Bytes (BitVec 8) 2) (p : List (BitVec 8)) : Prop :=
  (1 ≤ atoi p ∧ atoi p ≤ 65535) ∧
    ((family = afInet6 ∧ ∃ B, 0x5d#8 ∉ B ∧ B.length ≤ 45 ∧ s = 0x5b#8 :: (B ++ 0x5d#8 :: 0x3a#8 :: p)) ∨
    (family = afInet ∧ s.head? ≠ some 0x5b#8 ∧
      ∃ A, 1 ≤ A.length ∧ A.length ≤ 15 ∧ 0x3a#8 ∉ p ∧ s = A ++ 0x3a#8 :: p))

section

variable {I : Inet} {s p : List (BitVec 8)} {m : EndpointMem} {family : Bytes (BitVec 8) 2}

/-- Once the port has been stored the call succeeds, or leaves it behind. -/
theorem endpointParse_of_portStored (h : PortStored s family p) :
    (endpointParse I s m).2 = .ok () ∨
      endpointParse I s m = (.half family (htons (BitVec.ofInt 16 (atoi p))), .error .einval) := by
  obtain ⟨hrange, ⟨rfl, B, hB, hlen, rfl⟩ | ⟨rfl, hbracket, A, hmin, hmax, hp, rfl⟩⟩ := h
  · rw [endpointParse_inet6 m hB, if_neg (by omega), fillEndpoint_of_port hrange]
    cases I.pton6 B with
    | none => exact .inr rfl
    | some addr => exact .inl rfl
  · rw [endpointParse_inet m hp hbracket, if_neg (by omega), fillEndpoint_of_port hrange]
    cases I.pton4 A with
    | none => exact .inr rfl
    | some addr => exact .inl rfl

/-- Before, a call that fails leaves the structure cleared. -/
theorem endpointParse_of_not_portStored (h : ∀ family p, ¬ PortStored s family p) :
    endpointParse I s m = (.cleared, .error .einval) := by
  rcases endpointParse_forms I s m with ⟨B, p, hB, rfl⟩ | ⟨A, p, hp, rfl, hbracket⟩ | hrefused
  · rw [endpointParse_inet6 m hB]
    split
    · rfl
    · next hlen =>
      refine fillEndpoint_of_no_port fun hrange => ?_
      exact h afInet6 p ⟨hrange, .inl ⟨rfl, B, hB, by omega, rfl⟩⟩
  · rw [endpointParse_inet m hp hbracket]
    split
    · rfl
    · next hlen =>
      refine fillEndpoint_of_no_port fun hrange => ?_
      exact h afInet p ⟨hrange, .inr ⟨rfl, hbracket, A, by omega, by omega, hp, rfl⟩⟩
  · exact hrefused

/-- **`endpoint_parse` leaves the structure as it was** if the text is accepted, or if the structure was already what
is left: cleared, or cleared but for the family and the port that the text has. -/
theorem endpointParse_atomic_iff : Atomic m (endpointParse I s m) ↔
    EndpointTaken I s ∨ (m = .cleared ∧ ∀ family p, ¬ PortStored s family p) ∨
      ∃ family p, PortStored s family p ∧ m = .half family (htons (BitVec.ofInt 16 (atoi p))) := by
  rw [← endpointParse_isOk_iff (m := m)]
  by_cases hstored : ∃ family p, PortStored s family p
  · obtain ⟨family, p, hp⟩ := hstored
    rcases endpointParse_of_portStored (I := I) (m := m) hp with hok | hleft
    · simp [Atomic, hok]
    · rw [Atomic, hleft]
      constructor
      · exact fun h => .inr (.inr ⟨family, p, hp, (h _ rfl).symm⟩)
      · rintro (hok | ⟨-, hnone⟩ | ⟨family', p', hp', rfl⟩) e -
        · cases hok
        · exact absurd hp (hnone family p)
        · -- what is left is a function of the text
          rcases endpointParse_of_portStored (I := I) (m := .half family' (htons (BitVec.ofInt 16 (atoi p')))) hp' with
            hok | hleft'
          · rw [hleft] at hok
            cases hok
          · exact congrArg Prod.fst (hleft.symm.trans hleft')
  · simp only [not_exists] at hstored
    rw [endpointParse_of_not_portStored hstored, Atomic]
    constructor
    · exact fun h => .inr (.inl ⟨(h _ rfl).symm, hstored⟩)
    · rintro (hok | ⟨rfl, -⟩ | ⟨family, p, hp, -⟩) e -
      · cases hok
      · rfl
      · exact absurd hp (hstored family p)

end

/-- The loop leaves the octets of a key as they were, up to the first pair that does not read. -/
theorem parseKeyHexLoop_eq_self {strict0x : Bool} {s key : List (BitVec 8)} :
    (parseKeyHexLoop strict0x s key).1 = key ↔
      ∀ i v, i < key.length → (∀ j < i, scanHex2 strict0x (s.drop (2 * j)) ≠ none) →
        scanHex2 strict0x (s.drop (2 * i)) = some v → key[i]? = some (v.setWidth 8) := by
  induction key generalizing s with
  | nil => simp [parseKeyHexLoop]
  | cons k key ih =>
    have hshift : ∀ i, (s.drop 2).drop (2 * i) = s.drop (2 * (i + 1)) := fun i => by rw [List.drop_drop]; congr 1; omega
    rw [parseKeyHexLoop]
    cases hscan : scanHex2 strict0x s with
    | none =>
      simp only [true_iff]
      intro i v hi hbefore hv
      cases i with
      | zero => rw [Nat.mul_zero, List.drop_zero, hscan] at hv; cases hv
      | succ i => exact absurd hscan (hbefore 0 (Nat.succ_pos i))
    | some w =>
      simp only [List.cons.injEq, ih, hshift]
      constructor
      · rintro ⟨rfl, hrest⟩ i v hi hbefore hv
        cases i with
        | zero =>
          rw [Nat.mul_zero, List.drop_zero, hscan, Option.some.injEq] at hv
          rw [List.getElem?_cons_zero, hv]
        | succ i =>
          rw [List.getElem?_cons_succ]
          exact hrest i v (Nat.lt_of_succ_lt_succ hi) (fun j hj => hbefore (j + 1) (Nat.succ_lt_succ hj)) hv
      · intro h
        refine ⟨?_, fun i v hi hbefore hv => ?_⟩
        · have hfirst := h 0 w (Nat.succ_pos _) (fun j hj => absurd hj (Nat.not_lt_zero j)) hscan
          rw [List.getElem?_cons_zero, Option.some.injEq] at hfirst
          exact hfirst.symm
        · have hnext := h (i + 1) v (Nat.succ_lt_succ hi) (fun j hj => ?_) hv
          · rwa [List.getElem?_cons_succ] at hnext
          · cases j with
            | zero => rw [Nat.mul_zero, List.drop_zero, hscan]; exact Option.some_ne_none w
            | succ j => exact hbefore j (Nat.lt_of_succ_lt_succ hj)

/-- **`config_parse_key_hex` leaves the key as it was** if the length is wrong, if a number stands at every pair, or
if every pair in front of the first one without is what the key has at its place. -/
theorem configParseKeyHex_atomic_iff {strict0x : Bool} {s : List (BitVec 8)} {key : Bytes (BitVec 8) 32} :
    Atomic key (configParseKeyHex strict0x s key) ↔
      s.length ≠ 64 ∨ (∀ i < 32, HasHex2 strict0x (s.drop (2 * i))) ∨
        ∀ (i : Fin 32) v, (∀ j < (i : ℕ), HasHex2 strict0x (s.drop (2 * j))) →
          scanHex2 strict0x (s.drop (2 * i)) = some v → key.get i = v.setWidth 8 := by
  by_cases hlen : s.length = 64
  · have hget (i : Fin 32) : key.toList[(i : ℕ)]? = some (key.get i) := by
      rw [List.Vector.get_eq_get_toList, List.getElem?_eq_getElem (by simp)]
      rfl
    have hself : (configParseKeyHex strict0x s key).1 = key ↔
        ∀ (i : Fin 32) v, (∀ j < (i : ℕ), HasHex2 strict0x (s.drop (2 * j))) →
          scanHex2 strict0x (s.drop (2 * i)) = some v → key.get i = v.setWidth 8 := by
      rw [configParseKeyHex, if_neg (not_not.mpr hlen), ← List.Vector.toList_injective.eq_iff, List.Vector.toList_mk,
        parseKeyHexLoop_eq_self, key.toList_length]
      simp only [scanHex2_ne_none]
      constructor
      · intro h i v hbefore hv
        have := h i v i.isLt hbefore hv
        rwa [hget, Option.some.injEq] at this
      · intro h i v hi hbefore hv
        rw [hget ⟨i, hi⟩, h ⟨i, hi⟩ v hbefore hv]
    have hok : (configParseKeyHex strict0x s key).2 = .ok () ↔
        ∀ i < 32, HasHex2 strict0x (s.drop (2 * i)) := by
      rw [configParseKeyHex_eq_ok, and_iff_right hlen]
    rw [← hself, ← hok, Atomic]
    cases hresult : (configParseKeyHex strict0x s key).2 with
    | ok _ => simp
    | error e => simp [hlen]
  · rw [configParseKeyHex, if_pos hlen]
    simp [Atomic, hlen]

/-- **Which parsers leave the output as it was when they fail.** Those of packets and of ranges always do. The other
two do so exactly when the text is one that they accept, or the output was before the call what they leave in it. -/
theorem parsers_atomic_iff [Octet β] :
    (∀ (buf : List β) out, Atomic out (packetParseHandshakeInitInto buf out)) ∧
    (∀ (buf : List β) out, Atomic out (packetParseHandshakeRespInto buf out)) ∧
    (∀ (buf : List β) out, Atomic out (packetParseDataInto buf out)) ∧
    (∀ str cidr, Atomic cidr (vpnCidrParseInto str cidr)) ∧
    (∀ I s m, Atomic m (endpointParse I s m) ↔
      EndpointTaken I s ∨ (m = .cleared ∧ ∀ family p, ¬ PortStored s family p) ∨
        ∃ family p, PortStored s family p ∧ m = .half family (htons (BitVec.ofInt 16 (atoi p)))) ∧
    (∀ strict0x s key, Atomic key (configParseKeyHex strict0x s key) ↔
      s.length ≠ 64 ∨ (∀ i < 32, HasHex2 strict0x (s.drop (2 * i))) ∨
        ∀ (i : Fin 32) v, (∀ j < (i : ℕ), HasHex2 strict0x (s.drop (2 * j))) →
          scanHex2 strict0x (s.drop (2 * i)) = some v → key.get i = v.setWidth 8) := by
  refine ⟨fun buf out => ?_, fun buf out => ?_, fun buf out => ?_, fun str cidr => ?_,
    fun I s m => endpointParse_atomic_iff, fun strict0x s key => configParseKeyHex_atomic_iff⟩
  · rw [packetParseHandshakeInitInto_eq]
    exact atomic_writeBack out _
  · rw [packetParseHandshakeRespInto_eq]
    exact atomic_writeBack out _
  · rw [packetParseDataInto_eq]
    exact atomic_writeBack out _
  · rw [vpnCidrParseInto_eq]
    exact atomic_writeBack cidr _

/-- An endpoint, 192.168.1.100 with port 51820. -/
def toyEndpoint : EndpointMem := .inet (htons 51820) (addrOctets 0xc0a80164)

/-- **What was there is lost**: an endpoint that a text without a colon is parsed into is cleared, one that a text with
a port and no address is parsed into has that port afterwards, and a key has the first octet of a text that is no
key. -/
theorem partial_output :
    (endpointParse toyInet (ofText "localhost") toyEndpoint = (.cleared, .error .einval) ∧
      ¬ Atomic toyEndpoint (endpointParse toyInet (ofText "localhost") toyEndpoint)) ∧
    (endpointParse toyInet (ofText "localhost:80") toyEndpoint = (.half afInet (htons 80), .error .einval) ∧
      ¬ Atomic toyEndpoint (endpointParse toyInet (ofText "localhost:80") toyEndpoint)) ∧
    ∀ strict0x, configParseKeyHex strict0x (ofText "ff" ++ List.replicate 62 0x7a#8) (zeroBytes 32) =
        (⟨0xff#8 :: List.replicate 31 0#8, rfl⟩, .error .einval) ∧
      ¬ Atomic (zeroBytes 32)
        (configParseKeyHex strict0x (ofText "ff" ++ List.replicate 62 0x7a#8) (zeroBytes 32)) := by
  have hcleared : endpointParse toyInet (ofText "localhost") toyEndpoint = (.cleared, .error .einval) := by
    decide +kernel
  have hhalf : endpointParse toyInet (ofText "localhost:80") toyEndpoint =
      (.half afInet (htons 80), .error .einval) := by
    decide +kernel
  have hkey : ∀ strict0x, configParseKeyHex strict0x (ofText "ff" ++ List.replicate 62 0x7a#8) (zeroBytes 32) =
      (⟨0xff#8 :: List.replicate 31 0#8, rfl⟩, .error .einval) := by decide +kernel
  have hother : (⟨0xff#8 :: List.replicate 31 0#8, rfl⟩ : Bytes (BitVec 8) 32) ≠ zeroBytes 32 :=
    fun h => absurd (congrArg List.Vector.head h) (by decide)
  exact ⟨⟨hcleared, not_atomic_of_ne hcleared (by decide)⟩, ⟨hhalf, not_atomic_of_ne hhalf (by decide)⟩,
    fun strict0x => ⟨hkey strict0x, not_atomic_of_ne (hkey strict0x) hother⟩⟩

end VpnTunnel
