import Mathlib.Data.Nat.Notation
import VpnTunnel.Config
import VpnTunnel.Lib.CString

/-!
# Address ranges

This module models `src/routing.c`: the CIDR ranges of a peer's AllowedIPs, how they are read from text and
which addresses they match.

"Prefix length N (0 to 32) creates a 32-bit mask with N leading 1s", and "an IP matches a CIDR subnet if
`(ip & mask) == network`".

## The model

Text is a C string, the list of its octets. `vpn_ip_parse` gives 0 for a text that is no address, and
`vpn_cidr_parse` goes on with that. What is in a range does not depend on the text it was read from: a range
that was parsed is canonical (`Cidr.Canonical`), and it is canonical ranges that are compared.

## What is proved

* `canonical_of_vpnCidrParse` — what is parsed is canonical.
* `vpnCidrParse_eq_ok` — which texts are parsed, and to what.
* `exists_match_match_iff` — two canonical ranges share an address exactly when their networks agree where
  both masks have ones.
-/

namespace VpnTunnel

open CString

/-- A range of IPv4 addresses, `vpn_cidr_t`. -/
structure Cidr where
  /-- The network address, in host byte order. -/
  network : BitVec 32
  /-- The mask. -/
  mask : BitVec 32
  /-- The length of the network part. -/
  prefixLen : ℕ
  deriving DecidableEq, Repr

/-- An address in dotted decimal, `vpn_ip_parse`. What is not one gives 0. -/
def vpnIpParse (str : List (BitVec 8)) : BitVec 32 :=
  let scanned : Option (BitVec 32 × BitVec 32 × BitVec 32 × BitVec 32) := do
    let (a, s) ← scanUnsigned str
    let (b, s) ← scanChar 0x2e#8 s >>= scanUnsigned
    let (c, s) ← scanChar 0x2e#8 s >>= scanUnsigned
    let (d, _) ← scanChar 0x2e#8 s >>= scanUnsigned
    return (a, b, c, d)
  match scanned with
  | none => 0
  | some (a, b, c, d) =>
    if a > 255 ∨ b > 255 ∨ c > 255 ∨ d > 255 then 0
    else a <<< 24 ||| b <<< 16 ||| c <<< 8 ||| d

/-- Four texts with dots between them. -/
def dotted (a b c d : List (BitVec 8)) : List (BitVec 8) := a ++ 0x2e#8 :: (b ++ 0x2e#8 :: (c ++ 0x2e#8 :: d))

/-- An address printed in dotted decimal, `vpn_ip_to_string`: the string in the buffer. -/
def vpnIpToString (ip : BitVec 32) (bufLen : ℕ) : Except Errno (List (BitVec 8)) :=
  if bufLen < 16 then .error .einval
  else
    let text := dotted (formatUnsigned (ip >>> 24 &&& 0xff#32).toNat) (formatUnsigned (ip >>> 16 &&& 0xff#32).toNat)
      (formatUnsigned (ip >>> 8 &&& 0xff#32).toNat) (formatUnsigned (ip &&& 0xff#32).toNat)
    if text.length ≥ bufLen then .error .enospc else .ok text

/-- The mask of a prefix length, as `vpn_cidr_parse` makes it. -/
def cidrMask (prefixLen : ℕ) : BitVec 32 :=
  if prefixLen = 0 then 0#32
  else if prefixLen = 32 then 0xffffffff#32
  else 0xffffffff#32 <<< (32 - prefixLen)

/-- The two parts of a range in text: the address, as far as the buffer of 32 holds it, and the prefix
length, which is 32 if there is none. -/
def cidrParts (str : List (BitVec 8)) : Except Errno (List (BitVec 8) × ℤ) :=
  match strchr str 0x2f#8 with
  | some len => if len = 0 ∨ len ≥ 32 then .error .einval else .ok (str.take len, atoi (str.drop (len + 1)))
  | none => .ok (str.take 31, 32)

/-- A range in text, `vpn_cidr_parse`. -/
def vpnCidrParse (str : List (BitVec 8)) : Except Errno Cidr := do
  let (ipBuf, prefixLen) ← cidrParts str
  if prefixLen < 0 ∨ prefixLen > 32 then .error .einval
  else
    let ip := vpnIpParse ipBuf
    let mask := cidrMask prefixLen.toNat
    return { network := ip &&& mask, mask := mask, prefixLen := prefixLen.toNat }

/-- `vpn_cidr_parse`, with the structure it writes to. -/
def vpnCidrParseInto (str : List (BitVec 8)) (cidr : Cidr) : Cidr × Except Errno Unit :=
  match cidrParts str with
  | .error e => (cidr, .error e)
  | .ok (ipBuf, prefixLen) =>
    if prefixLen < 0 ∨ prefixLen > 32 then (cidr, .error .einval)
    else
      let ip := vpnIpParse ipBuf
      let mask := cidrMask prefixLen.toNat
      let cidr := { cidr with network := ip &&& mask }
      let cidr := { cidr with mask := mask }
      let cidr := { cidr with prefixLen := prefixLen.toNat }
      (cidr, .ok ())

/-- The address lies in the range, `vpn_cidr_match`. -/
def vpnCidrMatch (cidr : Cidr) (ip : BitVec 32) : Bool := ip &&& cidr.mask == cidr.network

/-! ### Canonical ranges -/

/-- A range is canonical: the mask is as many leading ones as the prefix is long, and the network has no bits
outside the mask. -/
structure Cidr.Canonical (cidr : Cidr) : Prop where
  /-- The prefix is no longer than an address. -/
  prefixLen_le : cidr.prefixLen ≤ 32
  /-- The mask is `prefix_len` leading ones. -/
  mask_eq : ∀ k, cidr.mask.getMsbD k = decide (k < cidr.prefixLen)
  /-- The network lies inside the mask. -/
  network_and : cidr.network &&& ~~~cidr.mask = 0#32

/-- The mask of a prefix length has so many leading ones. -/
theorem getMsbD_cidrMask {n : ℕ} (hn : n ≤ 32) (k : ℕ) : (cidrMask n).getMsbD k = decide (k < n) := by
  have hones : 0xffffffff#32 = BitVec.allOnes 32 := rfl
  unfold cidrMask
  split
  · next hzero => simp [hzero]
  · split
    · next hfull => rw [hones, BitVec.getMsbD_allOnes, hfull]
    · rw [hones, BitVec.getMsbD_shiftLeft, BitVec.getMsbD_allOnes, decide_eq_decide]
      omega

/-- Two addresses agree under the mask of a prefix length when they agree in so many leading bits. -/
theorem and_cidrMask_eq_iff {n : ℕ} (hn : n ≤ 32) (x y : BitVec 32) :
    x &&& cidrMask n = y &&& cidrMask n ↔ ∀ k < n, x.getMsbD k = y.getMsbD k := by
  have hbit (x : BitVec 32) (k : ℕ) : (x &&& cidrMask n).getMsbD k = (x.getMsbD k && decide (k < n)) := by
    rw [BitVec.getMsbD_and, getMsbD_cidrMask hn]
  constructor
  · intro h k hk
    have heq := congrArg (fun z : BitVec 32 => z.getMsbD k) h
    simpa only [hbit, hk, decide_true, Bool.and_true] using heq
  · intro h
    apply BitVec.eq_of_getMsbD_eq
    intro k _
    rw [hbit, hbit]
    by_cases hk : k < n
    · rw [h k hk]
    · simp [hk]

/-- **A text is parsed** when it splits and the number behind the slash is a prefix length. -/
theorem vpnCidrParse_eq_ok {str : List (BitVec 8)} {cidr : Cidr} : vpnCidrParse str = .ok cidr ↔
    ∃ ipBuf prefixLen, cidrParts str = .ok (ipBuf, prefixLen) ∧ 0 ≤ prefixLen ∧ prefixLen ≤ 32 ∧
      cidr = ⟨vpnIpParse ipBuf &&& cidrMask prefixLen.toNat, cidrMask prefixLen.toNat, prefixLen.toNat⟩ := by
  constructor
  · intro h
    obtain ⟨⟨ipBuf, prefixLen⟩, hparts, h⟩ := bind_eq_ok.mp h
    dsimp only at h
    split at h
    · cases h
    · next hrange =>
      cases h
      exact ⟨ipBuf, prefixLen, hparts, by omega, by omega, rfl⟩
  · rintro ⟨ipBuf, prefixLen, hparts, hmin, hmax, rfl⟩
    exact bind_eq_ok.mpr ⟨_, hparts, if_neg (by omega)⟩

/-- **A range that parses is canonical.** -/
theorem canonical_of_vpnCidrParse {str : List (BitVec 8)} {cidr : Cidr} (h : vpnCidrParse str = .ok cidr) :
    cidr.Canonical := by
  obtain ⟨ipBuf, prefixLen, -, hmin, hmax, rfl⟩ := vpnCidrParse_eq_ok.mp h
  have hle : prefixLen.toNat ≤ 32 := by omega
  refine ⟨hle, getMsbD_cidrMask hle, ?_⟩
  rw [BitVec.and_assoc, BitVec.and_not_self]
  exact BitVec.and_zero

/-- Two ranges agree where both masks have ones. -/
def Cidr.Overlaps (c d : Cidr) : Prop := c.network &&& d.mask = d.network &&& c.mask

instance (c d : Cidr) : Decidable (c.Overlaps d) := inferInstanceAs (Decidable (_ = _))

/-- The network of a canonical range is the same under its mask. -/
theorem Cidr.Canonical.network_mask {c : Cidr} (h : c.Canonical) : c.network &&& c.mask = c.network := by
  have hsplit : c.network &&& c.mask ||| c.network &&& ~~~c.mask = c.network := by
    rw [← BitVec.and_or_distrib_left, BitVec.or_not_self]
    exact BitVec.and_allOnes
  rwa [h.network_and, BitVec.or_zero] at hsplit

/-- A network that overlaps a canonical one adds no bits to it inside its mask. -/
theorem Cidr.Canonical.or_network {c d : Cidr} (h : c.Canonical) (hover : d.network &&& c.mask = c.network &&& d.mask) :
    (c.network ||| d.network) &&& c.mask = c.network := by
  rw [BitVec.and_or_distrib_right, h.network_mask, hover]
  apply BitVec.eq_of_getLsbD_eq
  intro k _
  rw [BitVec.getLsbD_or, BitVec.getLsbD_and]
  cases c.network.getLsbD k <;> simp

/-- **Two canonical ranges share an address exactly when they overlap.** -/
theorem exists_match_match_iff {c d : Cidr} (hc : c.Canonical) (hd : d.Canonical) :
    (∃ ip, vpnCidrMatch c ip = true ∧ vpnCidrMatch d ip = true) ↔ c.Overlaps d := by
  simp only [vpnCidrMatch, beq_iff_eq, Cidr.Overlaps]
  constructor
  · rintro ⟨ip, hipc, hipd⟩
    rw [← hipc, ← hipd, BitVec.and_assoc, BitVec.and_assoc, BitVec.and_comm c.mask]
  · intro h
    refine ⟨c.network ||| d.network, hc.or_network h.symm, ?_⟩
    rw [BitVec.or_comm]
    exact hd.or_network h

end VpnTunnel
