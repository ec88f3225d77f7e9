import VpnTunnel.Lib.Blocks
import VpnTunnel.Lib.LittleEndian
import Mathlib.Data.Nat.ModEq

/-!
# Poly1305

This module models `crypto_onetimeauth/poly1305/donna` of the libsodium the repository carries in `deps/`: the tag
of every datagram of the tunnel, in the form for machines with products of 128 bits (`poly1305_donna64.h`).

## The model

The accumulator is a number modulo `2^130 - 5`, in three limbs of 44, 44 and 42 bits that are words of 64 bits.
A block is added to the accumulator, which is multiplied by the key; the products are words of 128 bits, and
what a limb has too much is carried to the next one, from the last to the first times 5. Nothing is ever reduced
completely before `poly1305_finish`. Every sum and product is one of machine words, cut to their size.

The message comes in parts of any length: what does not fill a block of 16 octets waits in `buffer`, of which the
first `leftover` octets are kept here. The last block is closed with an octet 1 and zeros, and without the bit
above its 128 (`final`).

## What is proved

* `poly1305Block_spec` — no word overflows, and a block is added and the sum multiplied by the key, modulo the prime.
* `poly1305Update_eq` — a part is taken in as if octet by octet, so that the parts do not matter.
* `poly1305_spec` — the tag of a message, in whatever parts it came, is the value of its blocks as a polynomial at
  the key, modulo the prime, plus the second half of the key, modulo `2^128`.
-/

namespace VpnTunnel

open Octets

/-- Read a 64-bit word, `LOAD64_LE`. -/
def load64Le (src : List (BitVec 8)) : BitVec 64 := leReadFrom 64 0 src

/-- Write a 64-bit word, `STORE64_LE`. -/
def store64Le (w : BitVec 64) : List (BitVec 8) := leWriteFrom w 0 8

/-! ### The accumulator -/

/-- A number in three limbs. -/
@[ext]
structure Limbs where
  /-- The lowest 44 bits. -/
  l0 : BitVec 64
  /-- The next 44 bits. -/
  l1 : BitVec 64
  /-- The highest 42 bits. -/
  l2 : BitVec 64
  deriving DecidableEq, Repr

/-- The three sums of products, `uint128_t d0, d1, d2`. -/
structure WideLimbs where
  /-- The lowest one. -/
  d0 : BitVec 128
  /-- The middle one. -/
  d1 : BitVec 128
  /-- The highest one. -/
  d2 : BitVec 128

/-- `MUL`: the product of two words, in full. -/
def mulWide (x y : BitVec 64) : BitVec 128 := x.setWidth 128 * y.setWidth 128

/-- `h += m[i]`. -/
def addBlock (hibit : BitVec 64) (h : Limbs) (m : List (BitVec 8)) : Limbs :=
  let t0 := load64Le (m.take 8)
  let t1 := load64Le ((m.drop 8).take 8)
  { l0 := h.l0 + (t0 &&& 0xfffffffffff#64)
    l1 := h.l1 + ((t0 >>> 44 ||| t1 <<< 20) &&& 0xfffffffffff#64)
    l2 := h.l2 + ((t1 >>> 24 &&& 0x3ffffffffff#64) ||| hibit) }

/-- `h *= r`. -/
def mulLimbs (r h : Limbs) : WideLimbs :=
  let s1 := r.l1 * (5#64 <<< 2)
  let s2 := r.l2 * (5#64 <<< 2)
  { d0 := mulWide h.l0 r.l0 + mulWide h.l1 s2 + mulWide h.l2 s1
    d1 := mulWide h.l0 r.l1 + mulWide h.l1 r.l0 + mulWide h.l2 s2
    d2 := mulWide h.l0 r.l2 + mulWide h.l1 r.l1 + mulWide h.l2 r.l0 }

/-- `(partial) h %= p`. -/
def carryWide (d : WideLimbs) : Limbs :=
  let c := (d.d0 >>> 44).setWidth 64
  let h0 := d.d0.setWidth 64 &&& 0xfffffffffff#64
  let d1 := d.d1 + c.setWidth 128
  let c := (d1 >>> 44).setWidth 64
  let h1 := d1.setWidth 64 &&& 0xfffffffffff#64
  let d2 := d.d2 + c.setWidth 128
  let c := (d2 >>> 42).setWidth 64
  let h2 := d2.setWidth 64 &&& 0x3ffffffffff#64
  let h0 := h0 + c * 5#64
  let c := h0 >>> 44
  let h0 := h0 &&& 0xfffffffffff#64
  let h1 := h1 + c
  ⟨h0, h1, h2⟩

/-- One turn of the loop of `poly1305_blocks`. -/
def poly1305Block (r : Limbs) (hibit : BitVec 64) (h : Limbs) (m : List (BitVec 8)) : Limbs :=
  carryWide (mulLimbs r (addBlock hibit h m))

/-- `fully carry h`, in `poly1305_finish`. -/
def fullCarry (h : Limbs) : Limbs :=
  let h0 := h.l0
  let h1 := h.l1
  let h2 := h.l2
  let c := h1 >>> 44
  let h1 := h1 &&& 0xfffffffffff#64
  let h2 := h2 + c
  let c := h2 >>> 42
  let h2 := h2 &&& 0x3ffffffffff#64
  let h0 := h0 + c * 5#64
  let c := h0 >>> 44
  let h0 := h0 &&& 0xfffffffffff#64
  let h1 := h1 + c
  let c := h1 >>> 44
  let h1 := h1 &&& 0xfffffffffff#64
  let h2 := h2 + c
  let c := h2 >>> 42
  let h2 := h2 &&& 0x3ffffffffff#64
  let h0 := h0 + c * 5#64
  let c := h0 >>> 44
  let h0 := h0 &&& 0xfffffffffff#64
  let h1 := h1 + c
  ⟨h0, h1, h2⟩

/-- `compute h + -p` and `select h if h < p, or h + -p if h >= p`, in `poly1305_finish`. -/
def selectReduced (h : Limbs) : Limbs :=
  let g0 := h.l0 + 5#64
  let c := g0 >>> 44
  let g0 := g0 &&& 0xfffffffffff#64
  let g1 := h.l1 + c
  let c := g1 >>> 44
  let g1 := g1 &&& 0xfffffffffff#64
  let g2 := h.l2 + c - (1#64 <<< 42)
  let mask := (g2 >>> 63) - 1#64
  let g0 := g0 &&& mask
  let g1 := g1 &&& mask
  let g2 := g2 &&& mask
  let mask := ~~~ mask
  ⟨(h.l0 &&& mask) ||| g0, (h.l1 &&& mask) ||| g1, (h.l2 &&& mask) ||| g2⟩

/-- `h = (h + pad)`, in `poly1305_finish`. -/
def addPad (h : Limbs) (t0 t1 : BitVec 64) : Limbs :=
  let h0 := h.l0 + (t0 &&& 0xfffffffffff#64)
  let c := h0 >>> 44
  let h0 := h0 &&& 0xfffffffffff#64
  let h1 := h.l1 + (((t0 >>> 44 ||| t1 <<< 20) &&& 0xfffffffffff#64) + c)
  let c := h1 >>> 44
  let h1 := h1 &&& 0xfffffffffff#64
  let h2 := h.l2 + ((t1 >>> 24 &&& 0x3ffffffffff#64) + c)
  let h2 := h2 &&& 0x3ffffffffff#64
  ⟨h0, h1, h2⟩

/-- `mac = h % (2^128)`, in `poly1305_finish`. -/
def storeTag (h : Limbs) : List (BitVec 8) :=
  store64Le (h.l0 ||| h.l1 <<< 44) ++ store64Le (h.l1 >>> 20 ||| h.l2 <<< 24)

/-! ### The functions of the interface -/

/-- The state of a computation, `poly1305_state_internal_t`. -/
structure Poly1305State where
  /-- The key the accumulator is multiplied with. -/
  r : Limbs
  /-- The accumulator. -/
  h : Limbs
  /-- What is added at the end, its lower half. -/
  pad0 : BitVec 64
  /-- Its upper half. -/
  pad1 : BitVec 64
  /-- The octets that wait for the rest of their block, the first `leftover` ones of `buffer`. -/
  buffer : List (BitVec 8)
  /-- The last block is being handled. -/
  final : Bool
  deriving DecidableEq, Repr

/-- `poly1305_init`. -/
def poly1305Init (key : Bytes (BitVec 8) 32) : Poly1305State :=
  let t0 := load64Le (key.toList.take 8)
  let t1 := load64Le ((key.toList.drop 8).take 8)
  { r := { l0 := t0 &&& 0xffc0fffffff#64
           l1 := (t0 >>> 44 ||| t1 <<< 20) &&& 0xfffffc0ffff#64
           l2 := t1 >>> 24 &&& 0x00ffffffc0f#64 }
    h := ⟨0, 0, 0⟩
    pad0 := load64Le ((key.toList.drop 16).take 8)
    pad1 := load64Le ((key.toList.drop 24).take 8)
    buffer := []
    final := false }

/-- The bit above the 128 of a block, in the highest limb. -/
def Poly1305State.hibit (st : Poly1305State) : BitVec 64 := if st.final then 0#64 else 1#64 <<< 40

/-- `poly1305_blocks`. -/
def poly1305Blocks (st : Poly1305State) (m : List (BitVec 8)) : Poly1305State :=
  { st with h := Blocks.blocks 16 (poly1305Block st.r st.hibit) st.h m }

/-- The second half of `poly1305_update`, when no octets wait: whole blocks are handled, and the rest is kept. -/
def updateWhole (st : Poly1305State) (m : List (BitVec 8)) : Poly1305State :=
  let want := if m.length ≥ 16 then m.length / 16 * 16 else 0
  let st := if m.length ≥ 16 then poly1305Blocks st (m.take want) else st
  let m := m.drop want
  if m.length ≠ 0 then { st with buffer := st.buffer ++ m } else st

/-- `poly1305_update`. -/
def poly1305Update (st : Poly1305State) (m : List (BitVec 8)) : Poly1305State :=
  if st.buffer.length ≠ 0 then
    let want := min (16 - st.buffer.length) m.length
    let st := { st with buffer := st.buffer ++ m.take want }
    if st.buffer.length < 16 then st
    else updateWhole { poly1305Blocks st st.buffer with buffer := [] } (m.drop want)
  else updateWhole st m

/-- `poly1305_finish`. -/
def poly1305Finish (st : Poly1305State) : List (BitVec 8) :=
  let st :=
    if st.buffer.length ≠ 0 then
      let buffer := st.buffer ++ 1#8 :: List.replicate (15 - st.buffer.length) 0#8
      poly1305Blocks { st with buffer := buffer, final := true } buffer
    else st
  storeTag (addPad (selectReduced (fullCarry st.h)) st.pad0 st.pad1)

/-! ### Words -/

theorem toNat_and44 (x : BitVec 64) : (x &&& 0xfffffffffff#64).toNat = x.toNat % 2 ^ 44 := by
  rw [BitVec.toNat_and]
  exact Nat.and_two_pow_sub_one_eq_mod x.toNat 44

theorem toNat_and42 (x : BitVec 64) : (x &&& 0x3ffffffffff#64).toNat = x.toNat % 2 ^ 42 := by
  rw [BitVec.toNat_and]
  exact Nat.and_two_pow_sub_one_eq_mod x.toNat 42

theorem toNat_and44_lt (x : BitVec 64) : (x &&& 0xfffffffffff#64).toNat < 2 ^ 44 :=
  (toNat_and44 x).trans_lt (Nat.mod_lt _ (by decide))

theorem toNat_and42_lt (x : BitVec 64) : (x &&& 0x3ffffffffff#64).toNat < 2 ^ 42 :=
  (toNat_and42 x).trans_lt (Nat.mod_lt _ (by decide))

theorem toNat_shr (x : BitVec 64) (i : ℕ) : (x >>> i).toNat = x.toNat / 2 ^ i := by
  rw [BitVec.toNat_ushiftRight, Nat.shiftRight_eq_div_pow]

theorem toNat_add_of_lt {x y : BitVec 64} (h : x.toNat + y.toNat < 2 ^ 64) : (x + y).toNat = x.toNat + y.toNat := by
  rw [BitVec.toNat_add, Nat.mod_eq_of_lt h]

/-- The limb in the middle of two words. -/
theorem toNat_middle (t0 t1 : BitVec 64) :
    (t0 >>> 44 ||| t1 <<< 20).toNat = t0.toNat / 2 ^ 44 + 2 ^ 20 * (t1.toNat % 2 ^ 44) := by
  have hlow : t0.toNat / 2 ^ 44 < 2 ^ 20 := by
    have := t0.isLt
    omega
  have hhigh : t1.toNat * 2 ^ 20 % 2 ^ 64 = 2 ^ 20 * (t1.toNat % 2 ^ 44) := by omega
  rw [BitVec.toNat_or, toNat_shr, BitVec.toNat_shiftLeft, Nat.shiftLeft_eq, hhigh, Nat.or_comm,
    ← Nat.two_pow_add_eq_or_of_lt hlow, Nat.add_comm]

/-- The number in the limbs. -/
def Limbs.value (h : Limbs) : ℕ := h.l0.toNat + 2 ^ 44 * h.l1.toNat + 2 ^ 88 * h.l2.toNat

/-- The prime. -/
def poly1305P : ℕ := 2 ^ 130 - 5

/-- Limbs as a block leaves them: the middle one may be a little too large. -/
structure Limbs.Reduced (h : Limbs) : Prop where
  l0 : h.l0.toNat < 2 ^ 44
  l1 : h.l1.toNat < 2 ^ 44 + 2 ^ 9
  l2 : h.l2.toNat < 2 ^ 42

/-- Limbs of a clamped key. -/
structure Limbs.Clamped (r : Limbs) : Prop where
  l0 : r.l0.toNat < 2 ^ 44
  l1 : r.l1.toNat < 2 ^ 44
  l2 : r.l2.toNat < 2 ^ 36

/-- Limbs with a block added. -/
structure Limbs.Loose (h : Limbs) : Prop where
  l0 : h.l0.toNat < 2 ^ 45
  l1 : h.l1.toNat < 2 ^ 46
  l2 : h.l2.toNat < 2 ^ 43

theorem toNat_mulWide (x y : BitVec 64) : (mulWide x y).toNat = x.toNat * y.toNat := by
  have hx : (x.setWidth 128).toNat = x.toNat := by
    rw [BitVec.toNat_setWidth]
    exact Nat.mod_eq_of_lt (by have := x.isLt; omega)
  have hy : (y.setWidth 128).toNat = y.toNat := by
    rw [BitVec.toNat_setWidth]
    exact Nat.mod_eq_of_lt (by have := y.isLt; omega)
  rw [mulWide, BitVec.toNat_mul, hx, hy]
  exact Nat.mod_eq_of_lt ((Nat.mul_lt_mul'' x.isLt y.isLt).trans_eq (by norm_num))

theorem toNat_times20 {x : BitVec 64} (h : x.toNat < 2 ^ 44) : (x * (5#64 <<< 2)).toNat = 20 * x.toNat := by
  have h20 : (5#64 <<< 2).toNat = 20 := by decide
  rw [BitVec.toNat_mul, h20, Nat.mod_eq_of_lt (by omega), Nat.mul_comm]

theorem toNat_add_add_of_lt {a b c : BitVec 128} (h : a.toNat + b.toNat + c.toNat < 2 ^ 128) :
    (a + b + c).toNat = a.toNat + b.toNat + c.toNat := by
  rw [BitVec.toNat_add, BitVec.toNat_add]
  omega

/-- What the sums of products are, and how large: none of them overflows. -/
structure MulSpec (r h : Limbs) (d : WideLimbs) : Prop where
  d0 : d.d0.toNat = h.l0.toNat * r.l0.toNat + 20 * (h.l1.toNat * r.l2.toNat) + 20 * (h.l2.toNat * r.l1.toNat)
  d1 : d.d1.toNat = h.l0.toNat * r.l1.toNat + h.l1.toNat * r.l0.toNat + 20 * (h.l2.toNat * r.l2.toNat)
  d2 : d.d2.toNat = h.l0.toNat * r.l2.toNat + h.l1.toNat * r.l1.toNat + h.l2.toNat * r.l0.toNat
  d0_lt : d.d0.toNat < 2 ^ 92
  d1_lt : d.d1.toNat < 2 ^ 91
  d2_lt : d.d2.toNat < 2 ^ 91

theorem mulLimbs_spec {r h : Limbs} (hr : r.Clamped) (hh : h.Loose) : MulSpec r h (mulLimbs r h) := by
  have b00 := Nat.mul_lt_mul'' hh.l0 hr.l0
  have b01 := Nat.mul_lt_mul'' hh.l0 hr.l1
  have b02 := Nat.mul_lt_mul'' hh.l0 hr.l2
  have b10 := Nat.mul_lt_mul'' hh.l1 hr.l0
  have b11 := Nat.mul_lt_mul'' hh.l1 hr.l1
  have b12 := Nat.mul_lt_mul'' hh.l1 hr.l2
  have b20 := Nat.mul_lt_mul'' hh.l2 hr.l0
  have b21 := Nat.mul_lt_mul'' hh.l2 hr.l1
  have b22 := Nat.mul_lt_mul'' hh.l2 hr.l2
  have hs1 := toNat_times20 hr.l1
  have hs2 := toNat_times20 (hr.l2.trans (by norm_num))
  have m0 := toNat_mulWide h.l0 r.l0
  have m1 := toNat_mulWide h.l1 (r.l2 * (5#64 <<< 2))
  have m2 := toNat_mulWide h.l2 (r.l1 * (5#64 <<< 2))
  have m3 := toNat_mulWide h.l2 (r.l2 * (5#64 <<< 2))
  rw [hs2, Nat.mul_left_comm] at m1 m3
  rw [hs1, Nat.mul_left_comm] at m2
  have e0 := toNat_add_add_of_lt (a := mulWide h.l0 r.l0) (b := mulWide h.l1 (r.l2 * (5#64 <<< 2)))
    (c := mulWide h.l2 (r.l1 * (5#64 <<< 2))) (by omega)
  have e1 := toNat_add_add_of_lt (a := mulWide h.l0 r.l1) (b := mulWide h.l1 r.l0)
    (c := mulWide h.l2 (r.l2 * (5#64 <<< 2))) (by rw [toNat_mulWide, toNat_mulWide]; omega)
  have e2 := toNat_add_add_of_lt (a := mulWide h.l0 r.l2) (b := mulWide h.l1 r.l1)
    (c := mulWide h.l2 r.l0) (by rw [toNat_mulWide, toNat_mulWide, toNat_mulWide]; omega)
  rw [m0, m1, m2] at e0
  rw [toNat_mulWide, toNat_mulWide, m3] at e1
  rw [toNat_mulWide, toNat_mulWide, toNat_mulWide] at e2
  refine ⟨e0, e1, e2, ?_, ?_, ?_⟩
  · rw [mulLimbs, e0]; omega
  · rw [mulLimbs, e1]; omega
  · rw [mulLimbs, e2]; omega

theorem toNat_shrWide {d : BitVec 128} {i : ℕ} (h : d.toNat / 2 ^ i < 2 ^ 64) :
    ((d >>> i).setWidth 64).toNat = d.toNat / 2 ^ i := by
  rw [BitVec.toNat_setWidth, BitVec.toNat_ushiftRight, Nat.shiftRight_eq_div_pow, Nat.mod_eq_of_lt h]

theorem toNat_addWide {d : BitVec 128} {c : BitVec 64} (h : d.toNat < 2 ^ 127) :
    (d + c.setWidth 128).toNat = d.toNat + c.toNat := by
  have hc := c.isLt
  rw [BitVec.toNat_add, BitVec.toNat_setWidth]
  omega

theorem toNat_lo44 (d : BitVec 128) : (d.setWidth 64 &&& 0xfffffffffff#64).toNat = d.toNat % 2 ^ 44 := by
  rw [toNat_and44, BitVec.toNat_setWidth]
  omega

theorem toNat_lo42 (d : BitVec 128) : (d.setWidth 64 &&& 0x3ffffffffff#64).toNat = d.toNat % 2 ^ 42 := by
  rw [toNat_and42, BitVec.toNat_setWidth]
  omega

theorem toNat_times5 {c : BitVec 64} (h : c.toNat < 2 ^ 61) : (c * 5#64).toNat = 5 * c.toNat := by
  rw [BitVec.toNat_mul, Nat.mul_comm]
  exact Nat.mod_eq_of_lt (by simp; omega)

/-- Carrying keeps the number modulo the prime. -/
theorem carryWide_spec {d : WideLimbs} (h0 : d.d0.toNat < 2 ^ 92) (h1 : d.d1.toNat < 2 ^ 91)
    (h2 : d.d2.toNat < 2 ^ 91) :
    (carryWide d).Reduced ∧ ∃ c, d.d0.toNat + 2 ^ 44 * d.d1.toNat + 2 ^ 88 * d.d2.toNat =
      (carryWide d).value + poly1305P * c := by
  generalize hout : carryWide d = out
  unfold carryWide at hout
  extract_lets c0 x0 e1 c1 x1 e2 c2 x2 y0 c3 z0 z1 at hout
  have hc0 : c0.toNat = d.d0.toNat / 2 ^ 44 := toNat_shrWide (by omega)
  have hx0 : x0.toNat = d.d0.toNat % 2 ^ 44 := toNat_lo44 _
  have he1 : e1.toNat = d.d1.toNat + c0.toNat := toNat_addWide (by omega)
  have hc1 : c1.toNat = e1.toNat / 2 ^ 44 := toNat_shrWide (by omega)
  have hx1 : x1.toNat = e1.toNat % 2 ^ 44 := toNat_lo44 _
  have he2 : e2.toNat = d.d2.toNat + c1.toNat := toNat_addWide (by omega)
  have hc2 : c2.toNat = e2.toNat / 2 ^ 42 := toNat_shrWide (by omega)
  have hx2 : x2.toNat = e2.toNat % 2 ^ 42 := toNat_lo42 _
  have h5 : (c2 * 5#64).toNat = 5 * c2.toNat := toNat_times5 (by omega)
  have hy0 : y0.toNat = x0.toNat + 5 * c2.toNat := h5 ▸ toNat_add_of_lt (by omega)
  have hc3 : c3.toNat = y0.toNat / 2 ^ 44 := toNat_shr _ _
  have hz0 : z0.toNat = y0.toNat % 2 ^ 44 := toNat_and44 _
  have hz1 : z1.toNat = x1.toNat + c3.toNat := toNat_add_of_lt (by omega)
  subst hout
  refine ⟨⟨?_, ?_, ?_⟩, c2.toNat, ?_⟩
  · dsimp only; omega
  · dsimp only; omega
  · dsimp only; omega
  · rw [Limbs.value, poly1305P]; dsimp only; omega

/-! ### A block -/

theorem toNat_load64Le {p : List (BitVec 8)} (h : p.length = 8) : (load64Le p).toNat = leNat p := by
  rw [load64Le, toNat_leReadFrom p (by omega), Nat.mul_zero, Nat.pow_zero, Nat.one_mul]

/-- The number in sixteen octets, as two words. -/
theorem leNat_words {m : List (BitVec 8)} (h : m.length = 16) :
    leNat m = (load64Le (m.take 8)).toNat + 2 ^ 64 * (load64Le ((m.drop 8).take 8)).toNat := by
  have hlow : (m.take 8).length = 8 := by rw [List.length_take, h]; rfl
  have hhigh : (m.drop 8).length = 8 := by rw [List.length_drop, h]
  rw [List.take_of_length_le hhigh.le, toNat_load64Le hlow, toNat_load64Le hhigh]
  nth_rewrite 1 [← List.take_append_drop 8 m]
  rw [leNat_append, hlow]

/-- The limbs of two words. -/
theorem toNat_limbs (t0 t1 : BitVec 64) : (t0 &&& 0xfffffffffff#64).toNat +
    2 ^ 44 * ((t0 >>> 44 ||| t1 <<< 20) &&& 0xfffffffffff#64).toNat + 2 ^ 88 * (t1 >>> 24 &&& 0x3ffffffffff#64).toNat =
      t0.toNat + 2 ^ 64 * t1.toNat := by
  have h0 := t0.isLt
  have h1 := t1.isLt
  rw [toNat_and44, toNat_and44, toNat_middle, toNat_and42, toNat_shr]
  omega

/-- The bit above a block is set in the highest limb. -/
theorem toNat_or_hibit (t1 : BitVec 64) {hibit : BitVec 64} (h : hibit = 0#64 ∨ hibit = 1#64 <<< 40) :
    ((t1 >>> 24 &&& 0x3ffffffffff#64) ||| hibit).toNat = (t1 >>> 24 &&& 0x3ffffffffff#64).toNat + hibit.toNat := by
  have hlt : (t1 >>> 24 &&& 0x3ffffffffff#64).toNat < 2 ^ 40 := by
    have h1 := t1.isLt
    rw [toNat_and42, toNat_shr]
    omega
  rcases h with rfl | rfl
  · rw [BitVec.or_zero]
    rfl
  · have hbit : (1#64 <<< 40).toNat = 2 ^ 40 * 1 := by decide
    rw [BitVec.toNat_or, hbit, Nat.or_comm, ← Nat.two_pow_add_eq_or_of_lt hlt, Nat.add_comm]

/-- A block is added. -/
theorem addBlock_spec {h : Limbs} (hh : h.Reduced) {m : List (BitVec 8)} (hm : m.length = 16) {hibit : BitVec 64}
    (hbit : hibit = 0#64 ∨ hibit = 1#64 <<< 40) :
    (addBlock hibit h m).Loose ∧ (addBlock hibit h m).value = h.value + (leNat m + 2 ^ 88 * hibit.toNat) := by
  obtain ⟨b0, b1, b2⟩ := hh
  have hbound : hibit.toNat ≤ 2 ^ 40 := by rcases hbit with rfl | rfl <;> decide
  generalize hout : addBlock hibit h m = out
  unfold addBlock at hout
  extract_lets t0 t1 at hout
  have hwords : leNat m = t0.toNat + 2 ^ 64 * t1.toNat := leNat_words hm
  have hlimbs := toNat_limbs t0 t1
  have hor := toNat_or_hibit t1 hbit
  have hm0 := toNat_and44 t0
  have hm1 := toNat_and44 (t0 >>> 44 ||| t1 <<< 20)
  have hm2 := toNat_and42 (t1 >>> 24)
  have e0 : out.l0.toNat = h.l0.toNat + (t0 &&& 0xfffffffffff#64).toNat := by
    rw [← hout]
    exact toNat_add_of_lt (by omega)
  have e1 : out.l1.toNat = h.l1.toNat + ((t0 >>> 44 ||| t1 <<< 20) &&& 0xfffffffffff#64).toNat := by
    rw [← hout]
    exact toNat_add_of_lt (by omega)
  have e2 : out.l2.toNat = h.l2.toNat + ((t1 >>> 24 &&& 0x3ffffffffff#64) ||| hibit).toNat := by
    rw [← hout]
    exact toNat_add_of_lt (by omega)
  refine ⟨⟨by omega, by omega, ?_⟩, ?_⟩
  · have h1 := t1.isLt
    have := toNat_shr t1 24
    omega
  · rw [Limbs.value, Limbs.value, e0, e1, e2, hor]
    omega

/-- The sums of products are the product, modulo the prime. -/
theorem MulSpec.modEq {r h : Limbs} {d : WideLimbs} (hd : MulSpec r h d) :
    d.d0.toNat + 2 ^ 44 * d.d1.toNat + 2 ^ 88 * d.d2.toNat ≡ h.value * r.value [MOD poly1305P] := by
  have hprod : h.value * r.value = d.d0.toNat + 2 ^ 44 * d.d1.toNat + 2 ^ 88 * d.d2.toNat + poly1305P *
      (4 * (h.l1.toNat * r.l2.toNat + h.l2.toNat * r.l1.toNat + 2 ^ 44 * (h.l2.toNat * r.l2.toNat))) := by
    have hp : poly1305P = 1361129467683753853853498429727072845819 := by rw [poly1305P]; norm_num
    rw [hd.d0, hd.d1, hd.d2, hp, Limbs.value, Limbs.value]
    ring
  rw [hprod]
  exact (Nat.ModEq.symm (Nat.add_modulus_mul_modEq_iff.mpr rfl))

/-- **A block is added, and the sum multiplied by the key.** -/
theorem poly1305Block_spec {r h : Limbs} (hr : r.Clamped) (hh : h.Reduced) {m : List (BitVec 8)} (hm : m.length = 16)
    {hibit : BitVec 64} (hbit : hibit = 0#64 ∨ hibit = 1#64 <<< 40) :
    (poly1305Block r hibit h m).Reduced ∧ (poly1305Block r hibit h m).value ≡
      (h.value + (leNat m + 2 ^ 88 * hibit.toNat)) * r.value [MOD poly1305P] := by
  obtain ⟨hloose, hsum⟩ := addBlock_spec hh hm hbit
  have hmul := mulLimbs_spec hr hloose
  obtain ⟨hred, c, hcarry⟩ := carryWide_spec hmul.d0_lt hmul.d1_lt hmul.d2_lt
  refine ⟨hred, ?_⟩
  rw [← hsum]
  refine Nat.ModEq.trans ?_ hmul.modEq
  rw [hcarry]
  exact (Nat.ModEq.symm (Nat.add_modulus_mul_modEq_iff.mpr rfl))

/-! ### The end -/

/-- Limbs of their own sizes. -/
structure Limbs.Full (h : Limbs) : Prop where
  l0 : h.l0.toNat < 2 ^ 44
  l1 : h.l1.toNat < 2 ^ 44
  l2 : h.l2.toNat < 2 ^ 42

/-- All limbs are brought to their sizes. -/
theorem fullCarry_spec {h : Limbs} (hh : h.Reduced) :
    (fullCarry h).Full ∧ ∃ c, h.value = (fullCarry h).value + poly1305P * c := by
  obtain ⟨b0, b1, b2⟩ := hh
  generalize hout : fullCarry h = out
  unfold fullCarry at hout
  extract_lets x0 x1 x2 c1 y1 y2 c2 z2 y0 c3 z0 z1 c4 w1 w2 c5 v2 w0 c6 v0 v1 at hout
  have hx0 : x0.toNat = h.l0.toNat := rfl
  have hx2 : x2.toNat = h.l2.toNat := rfl
  have hc1 : c1.toNat = h.l1.toNat / 2 ^ 44 := toNat_shr _ _
  have hy1 : y1.toNat = h.l1.toNat % 2 ^ 44 := toNat_and44 _
  have hy2 : y2.toNat = h.l2.toNat + c1.toNat := toNat_add_of_lt (by omega)
  have hc2 : c2.toNat = y2.toNat / 2 ^ 42 := toNat_shr _ _
  have hz2 : z2.toNat = y2.toNat % 2 ^ 42 := toNat_and42 _
  have h5 : (c2 * 5#64).toNat = 5 * c2.toNat := toNat_times5 (by omega)
  have hy0 : y0.toNat = h.l0.toNat + 5 * c2.toNat := h5 ▸ toNat_add_of_lt (by omega)
  have hc3 : c3.toNat = y0.toNat / 2 ^ 44 := toNat_shr _ _
  have hz0 : z0.toNat = y0.toNat % 2 ^ 44 := toNat_and44 _
  have hz1 : z1.toNat = y1.toNat + c3.toNat := toNat_add_of_lt (by omega)
  have hc4 : c4.toNat = z1.toNat / 2 ^ 44 := toNat_shr _ _
  have hw1 : w1.toNat = z1.toNat % 2 ^ 44 := toNat_and44 _
  have hw2 : w2.toNat = z2.toNat + c4.toNat := toNat_add_of_lt (by omega)
  have hc5 : c5.toNat = w2.toNat / 2 ^ 42 := toNat_shr _ _
  have hv2 : v2.toNat = w2.toNat % 2 ^ 42 := toNat_and42 _
  have h5' : (c5 * 5#64).toNat = 5 * c5.toNat := toNat_times5 (by omega)
  have hw0 : w0.toNat = z0.toNat + 5 * c5.toNat := h5' ▸ toNat_add_of_lt (by omega)
  have hc6 : c6.toNat = w0.toNat / 2 ^ 44 := toNat_shr _ _
  have hv0 : v0.toNat = w0.toNat % 2 ^ 44 := toNat_and44 _
  have hv1 : v1.toNat = w1.toNat + c6.toNat := toNat_add_of_lt (by omega)
  subst hout
  refine ⟨⟨?_, ?_, ?_⟩, c2.toNat + c5.toNat, ?_⟩
  · dsimp only
    omega
  · dsimp only
    omega
  · dsimp only
    omega
  · rw [Limbs.value, Limbs.value, poly1305P]
    dsimp only
    omega

theorem select_of_zero (x y : BitVec 64) : (x &&& ~~~ 0#64) ||| (y &&& 0#64) = x := by
  have hnot : ~~~ 0#64 = BitVec.allOnes 64 := rfl
  rw [hnot, BitVec.and_allOnes, BitVec.and_zero, BitVec.or_zero]

theorem select_of_allOnes (x y : BitVec 64) :
    (x &&& ~~~ BitVec.allOnes 64) ||| (y &&& BitVec.allOnes 64) = y := by
  rw [BitVec.not_allOnes, BitVec.and_zero, BitVec.and_allOnes, BitVec.zero_or]

/-- A number below `2 ^ 130` is reduced by taking off the prime once, or not at all. -/
theorem selectReduced_spec {h : Limbs} (hh : h.Full) :
    (selectReduced h).Full ∧ (selectReduced h).value = h.value % poly1305P := by
  obtain ⟨b0, b1, b2⟩ := hh
  generalize hout : selectReduced h = out
  unfold selectReduced at hout
  extract_lets g0 c0 x0 g1 c1 x1 g2 mask y0 y1 y2 notMask at hout
  have hg0 : g0.toNat = h.l0.toNat + 5 := toNat_add_of_lt (by rw [BitVec.toNat_ofNat]; omega)
  have hc0 : c0.toNat = g0.toNat / 2 ^ 44 := toNat_shr _ _
  have hx0 : x0.toNat = g0.toNat % 2 ^ 44 := toNat_and44 _
  have hg1 : g1.toNat = h.l1.toNat + c0.toNat := toNat_add_of_lt (by omega)
  have hc1 : c1.toNat = g1.toNat / 2 ^ 44 := toNat_shr _ _
  have hx1 : x1.toNat = g1.toNat % 2 ^ 44 := toNat_and44 _
  have hsum : (h.l2 + c1).toNat = h.l2.toNat + c1.toNat := toNat_add_of_lt (by omega)
  have h42 : (1#64 <<< 42).toNat = 2 ^ 42 := by decide
  have hg2 : g2.toNat = (2 ^ 64 - 2 ^ 42 + (h.l2.toNat + c1.toNat)) % 2 ^ 64 := by
    rw [← hsum, ← h42]
    exact BitVec.toNat_sub _ _
  have hsign : (g2 >>> 63).toNat = g2.toNat / 2 ^ 63 := toNat_shr _ _
  by_cases hlt : h.l2.toNat + c1.toNat < 2 ^ 42
  · -- the difference is negative: the limbs stay
    have hone : g2 >>> 63 = 1#64 := BitVec.eq_of_toNat_eq (by rw [hsign]; simp; omega)
    have hmask : mask = 0#64 := by
      show g2 >>> 63 - 1#64 = 0#64
      rw [hone]
      rfl
    have heq : out = h := by
      rw [← hout]
      show Limbs.mk ((h.l0 &&& ~~~ mask) ||| (x0 &&& mask)) ((h.l1 &&& ~~~ mask) ||| (x1 &&& mask))
        ((h.l2 &&& ~~~ mask) ||| (g2 &&& mask)) = h
      rw [hmask, select_of_zero, select_of_zero, select_of_zero]
    rw [heq]
    refine ⟨⟨b0, b1, b2⟩, (Nat.mod_eq_of_lt ?_).symm⟩
    rw [Limbs.value, poly1305P]
    omega
  · have hzero : g2 >>> 63 = 0#64 := BitVec.eq_of_toNat_eq (by rw [hsign]; simp; omega)
    have hmask : mask = BitVec.allOnes 64 := by
      show g2 >>> 63 - 1#64 = BitVec.allOnes 64
      rw [hzero]
      rfl
    have heq : out = ⟨x0, x1, g2⟩ := by
      rw [← hout]
      show Limbs.mk ((h.l0 &&& ~~~ mask) ||| (x0 &&& mask)) ((h.l1 &&& ~~~ mask) ||| (x1 &&& mask))
        ((h.l2 &&& ~~~ mask) ||| (g2 &&& mask)) = ⟨x0, x1, g2⟩
      rw [hmask, select_of_allOnes, select_of_allOnes, select_of_allOnes]
    have hvalue : h.value = (Limbs.mk x0 x1 g2).value + poly1305P := by
      rw [Limbs.value, Limbs.value, poly1305P]
      dsimp only
      omega
    rw [heq]
    refine ⟨⟨?_, ?_, ?_⟩, ?_⟩
    · dsimp only
      omega
    · dsimp only
      omega
    · dsimp only
      omega
    · rw [hvalue, Nat.add_mod_right, Nat.mod_eq_of_lt]
      rw [Limbs.value, poly1305P]
      dsimp only
      omega

/-- The second half of the key is added. -/
theorem addPad_spec {h : Limbs} (hh : h.Full) (t0 t1 : BitVec 64) :
    (addPad h t0 t1).Full ∧ (addPad h t0 t1).value = (h.value + (t0.toNat + 2 ^ 64 * t1.toNat)) % 2 ^ 130 := by
  obtain ⟨b0, b1, b2⟩ := hh
  have hlimbs := toNat_limbs t0 t1
  have hm0 := toNat_and44_lt t0
  have hm1 := toNat_and44_lt (t0 >>> 44 ||| t1 <<< 20)
  have hm2 := toNat_and42_lt (t1 >>> 24)
  generalize hout : addPad h t0 t1 = out
  unfold addPad at hout
  extract_lets g0 c0 x0 g1 c1 x1 g2 x2 at hout
  have hg0 : g0.toNat = h.l0.toNat + (t0 &&& 0xfffffffffff#64).toNat := toNat_add_of_lt (by omega)
  have hc0 : c0.toNat = g0.toNat / 2 ^ 44 := toNat_shr _ _
  have hx0 : x0.toNat = g0.toNat % 2 ^ 44 := toNat_and44 _
  have hpad1 : (((t0 >>> 44 ||| t1 <<< 20) &&& 0xfffffffffff#64) + c0).toNat =
      ((t0 >>> 44 ||| t1 <<< 20) &&& 0xfffffffffff#64).toNat + c0.toNat := toNat_add_of_lt (by omega)
  have hg1 : g1.toNat = h.l1.toNat + (((t0 >>> 44 ||| t1 <<< 20) &&& 0xfffffffffff#64).toNat + c0.toNat) :=
    hpad1 ▸ toNat_add_of_lt (by omega)
  have hc1 : c1.toNat = g1.toNat / 2 ^ 44 := toNat_shr _ _
  have hx1 : x1.toNat = g1.toNat % 2 ^ 44 := toNat_and44 _
  have hpad2 : ((t1 >>> 24 &&& 0x3ffffffffff#64) + c1).toNat = (t1 >>> 24 &&& 0x3ffffffffff#64).toNat + c1.toNat :=
    toNat_add_of_lt (by omega)
  have hg2 : g2.toNat = h.l2.toNat + ((t1 >>> 24 &&& 0x3ffffffffff#64).toNat + c1.toNat) :=
    hpad2 ▸ toNat_add_of_lt (by omega)
  have hx2 : x2.toNat = g2.toNat % 2 ^ 42 := toNat_and42 _
  subst hout
  refine ⟨⟨?_, ?_, ?_⟩, ?_⟩
  · dsimp only
    omega
  · dsimp only
    omega
  · dsimp only
    omega
  · have hsum : h.value + (t0.toNat + 2 ^ 64 * t1.toNat) =
        x0.toNat + 2 ^ 44 * x1.toNat + 2 ^ 88 * x2.toNat + 2 ^ 130 * (g2.toNat / 2 ^ 42) := by
      rw [Limbs.value]
      omega
    have hlt : x0.toNat + 2 ^ 44 * x1.toNat + 2 ^ 88 * x2.toNat < 2 ^ 130 := by omega
    rw [hsum, Nat.add_mul_mod_self_left, Nat.mod_eq_of_lt hlt]
    rfl

theorem leNat_store64Le (w : BitVec 64) : leNat (store64Le w) = w.toNat := leNat_leWriteFrom_zero w (by decide)

/-- The lowest 128 bits of the number are stored. -/
theorem leNat_storeTag {h : Limbs} (hh : h.Full) : leNat (storeTag h) = h.value % 2 ^ 128 := by
  obtain ⟨b0, b1, b2⟩ := hh
  have hlow : (h.l0 ||| h.l1 <<< 44).toNat = h.l0.toNat + 2 ^ 44 * (h.l1.toNat % 2 ^ 20) := by
    have hshift : h.l1.toNat * 2 ^ 44 % 2 ^ 64 = 2 ^ 44 * (h.l1.toNat % 2 ^ 20) := by omega
    rw [BitVec.toNat_or, BitVec.toNat_shiftLeft, Nat.shiftLeft_eq, hshift, Nat.or_comm,
      ← Nat.two_pow_add_eq_or_of_lt b0, Nat.add_comm]
  have hhigh : (h.l1 >>> 20 ||| h.l2 <<< 24).toNat = h.l1.toNat / 2 ^ 20 + 2 ^ 24 * (h.l2.toNat % 2 ^ 40) := by
    have hshift : h.l2.toNat * 2 ^ 24 % 2 ^ 64 = 2 ^ 24 * (h.l2.toNat % 2 ^ 40) := by omega
    have hlt : h.l1.toNat / 2 ^ 20 < 2 ^ 24 := by omega
    rw [BitVec.toNat_or, toNat_shr, BitVec.toNat_shiftLeft, Nat.shiftLeft_eq, hshift, Nat.or_comm,
      ← Nat.two_pow_add_eq_or_of_lt hlt, Nat.add_comm]
  have hlen : (store64Le (h.l0 ||| h.l1 <<< 44)).length = 8 := length_leWriteFrom _ 0 8
  rw [storeTag, leNat_append, leNat_store64Le, leNat_store64Le, hlen, hlow, hhigh, Limbs.value]
  omega

/-- **What is left of an accumulator and a pad in the end.** -/
theorem leNat_finish {h : Limbs} (hh : h.Reduced) (t0 t1 : BitVec 64) :
    leNat (storeTag (addPad (selectReduced (fullCarry h)) t0 t1)) =
      (h.value % poly1305P + (t0.toNat + 2 ^ 64 * t1.toNat)) % 2 ^ 128 := by
  obtain ⟨hfull, c, hcarry⟩ := fullCarry_spec hh
  obtain ⟨hsel, hmod⟩ := selectReduced_spec hfull
  obtain ⟨hpad, hvalue⟩ := addPad_spec hsel t0 t1
  have hdvd : (2 : ℕ) ^ 128 ∣ 2 ^ 130 := pow_dvd_pow 2 (by decide)
  rw [leNat_storeTag hpad, hvalue, Nat.mod_mod_of_dvd _ hdvd, hmod, hcarry, Nat.add_mul_mod_self_left]

/-! ### The key -/

theorem land_two_pow_mul_add {k a b x y : ℕ} (ha : a < 2 ^ k) (hx : x < 2 ^ k) :
    (2 ^ k * b + a) &&& (2 ^ k * y + x) = 2 ^ k * (b &&& y) + (a &&& x) := by
  apply Nat.eq_of_testBit_eq
  intro i
  have hand : a &&& x < 2 ^ k := Nat.and_lt_two_pow a hx
  rw [Nat.testBit_and, Nat.testBit_two_pow_mul_add _ ha, Nat.testBit_two_pow_mul_add _ hx,
    Nat.testBit_two_pow_mul_add _ hand]
  split
  · rw [Nat.testBit_and]
  · rw [Nat.testBit_and]

/-- The bits of the key that are not cleared. -/
def poly1305Mask : ℕ := 0x0ffffffc0ffffffc0ffffffc0fffffff

theorem poly1305Init_clamped (key : Bytes (BitVec 8) 32) : (poly1305Init key).r.Clamped := by
  refine ⟨?_, ?_, ?_⟩
  · rw [poly1305Init, BitVec.toNat_and]
    exact Nat.and_le_right.trans_lt (by decide)
  · rw [poly1305Init, BitVec.toNat_and]
    exact Nat.and_le_right.trans_lt (by decide)
  · rw [poly1305Init, BitVec.toNat_and]
    exact Nat.and_le_right.trans_lt (by decide)

theorem land_eq_mod_land {k x : ℕ} (hx : x < 2 ^ k) (a : ℕ) : a &&& x = a % 2 ^ k &&& x := by
  rw [← Nat.and_two_pow_sub_one_eq_mod, Nat.and_assoc, Nat.and_comm (2 ^ k - 1),
    Nat.and_two_pow_sub_one_of_lt_two_pow hx]

/-- The first half of the key, with the bits cleared that the source clears. -/
theorem poly1305Init_r (key : Bytes (BitVec 8) 32) :
    (poly1305Init key).r.value = leNat (key.toList.take 16) &&& poly1305Mask := by
  have hlen : (key.toList.take 16).length = 16 := by rw [List.length_take, key.toList_length]; rfl
  have hwords : leNat (key.toList.take 16) =
      (load64Le (key.toList.take 8)).toNat + 2 ^ 64 * (load64Le ((key.toList.drop 8).take 8)).toNat := by
    have hsplit := leNat_words hlen
    rw [List.take_take, List.drop_take, List.take_take] at hsplit
    exact hsplit
  rw [hwords, poly1305Init, Limbs.value]
  generalize load64Le (key.toList.take 8) = t0
  generalize load64Le ((key.toList.drop 8).take 8) = t1
  rw [← toNat_limbs t0 t1, toNat_and44, toNat_and44, toNat_and42, BitVec.toNat_and, BitVec.toNat_and, BitVec.toNat_and]
  generalize (t0 >>> 44 ||| t1 <<< 20).toNat = middle
  have hmask : poly1305Mask = 2 ^ 44 * (2 ^ 44 * 0x00ffffffc0f + 0xfffffc0ffff) + 0xffc0fffffff := by
    decide
  have hsum : t0.toNat % 2 ^ 44 + 2 ^ 44 * (middle % 2 ^ 44) + 2 ^ 88 * ((t1 >>> 24).toNat % 2 ^ 42) =
      2 ^ 44 * (2 ^ 44 * ((t1 >>> 24).toNat % 2 ^ 42) + middle % 2 ^ 44) + t0.toNat % 2 ^ 44 := by
    ring
  rw [hsum, hmask, land_two_pow_mul_add (Nat.mod_lt _ (by decide)) (by decide),
    land_two_pow_mul_add (Nat.mod_lt _ (by decide)) (by decide), BitVec.toNat_ofNat, BitVec.toNat_ofNat,
    BitVec.toNat_ofNat]
  have e0 := land_eq_mod_land (k := 44) (x := 0xffc0fffffff) (by decide) t0.toNat
  have e1 := land_eq_mod_land (k := 44) (x := 0xfffffc0ffff) (by decide) middle
  have e2 := land_eq_mod_land (k := 42) (x := 0x00ffffffc0f) (by decide) (t1 >>> 24).toNat
  rw [← e0, ← e1, ← e2]
  norm_num
  ring

/-! ### The message -/

/-- A block of the message as a number, with a bit above it. -/
def blockNat (m : List (BitVec 8)) : ℕ := leNat m + 2 ^ (8 * m.length)

/-- The blocks of a message as a polynomial, its value modulo the prime by Horner's rule: a block is added, and
the sum multiplied by `r`. -/
def polyAccumulate (r h : ℕ) (m : List (BitVec 8)) : ℕ :=
  if m = [] then h else polyAccumulate r ((h + blockNat (m.take 16)) * r % poly1305P) (m.drop 16)
termination_by m.length
decreasing_by
  rw [List.length_drop]
  have := List.length_pos_iff.mpr (by assumption)
  omega

/-- The tag of a message, as a number. -/
def poly1305Nat (key : Bytes (BitVec 8) 32) (m : List (BitVec 8)) : ℕ :=
  (polyAccumulate (leNat (key.toList.take 16) &&& poly1305Mask) 0 m + leNat (key.toList.drop 16)) % 2 ^ 128

theorem polyAccumulate_cons (r h : ℕ) {m : List (BitVec 8)} (hm : m ≠ []) :
    polyAccumulate r h m = polyAccumulate r ((h + blockNat (m.take 16)) * r % poly1305P) (m.drop 16) := by
  rw [polyAccumulate, if_neg hm]

theorem polyAccumulate_nil (r h : ℕ) : polyAccumulate r h [] = h := by
  rw [polyAccumulate, if_pos rfl]

/-- Whole blocks, one after the other. -/
theorem blocks_spec {r h : Limbs} (hr : r.Clamped) (hh : h.Reduced) (m : List (BitVec 8)) :
    (Blocks.blocks 16 (poly1305Block r (1#64 <<< 40)) h m).Reduced ∧
      polyAccumulate r.value (h.value % poly1305P) m =
        polyAccumulate r.value ((Blocks.blocks 16 (poly1305Block r (1#64 <<< 40)) h m).value % poly1305P)
          (Blocks.rest 16 m) := by
  induction hk : m.length using Nat.strongRecOn generalizing h m with
  | ind k ih =>
    by_cases hlen : m.length < 16
    · rw [Blocks.blocks_of_lt hlen, Blocks.rest_of_lt hlen]
      exact ⟨hh, rfl⟩
    · have hle := Nat.le_of_not_lt hlen
      have htake : (m.take 16).length = 16 := by rw [List.length_take, Nat.min_eq_left hle]
      have hne : m ≠ [] := List.ne_nil_of_length_pos (by omega)
      obtain ⟨hred, hmod⟩ := poly1305Block_spec hr hh htake (.inr rfl)
      obtain ⟨hred', hacc⟩ := ih (m.drop 16).length (by rw [List.length_drop]; omega) hred (m.drop 16) rfl
      have hblock : leNat (m.take 16) + 2 ^ 88 * (1#64 <<< 40).toNat = blockNat (m.take 16) := by
        rw [blockNat, htake]
        rfl
      rw [hblock] at hmod
      have hstep : (h.value % poly1305P + blockNat (m.take 16)) * r.value % poly1305P =
          (poly1305Block r (1#64 <<< 40) h (m.take 16)).value % poly1305P := by
        rw [hmod, Nat.mul_mod, Nat.mod_add_mod, ← Nat.mul_mod]
      rw [Blocks.blocks_of_le (by decide) hle, Blocks.rest_of_le (by decide) hle, polyAccumulate_cons _ _ hne, hstep]
      exact ⟨hred', hacc⟩

/-- The state after some more octets were taken in. -/
def Poly1305State.absorbed (st : Poly1305State) (m : List (BitVec 8)) : Poly1305State :=
  let s := Blocks.absorb 16 (poly1305Block st.r st.hibit) (st.h, st.buffer) m
  { st with h := s.1, buffer := s.2 }

theorem updateWhole_eq {st : Poly1305State} (hbuf : st.buffer = []) (m : List (BitVec 8)) :
    updateWhole st m = st.absorbed m := by
  obtain ⟨r, h, pad0, pad1, buffer, final⟩ := st
  dsimp only at hbuf
  subst hbuf
  -- what is kept at the end, or nothing when nothing is left
  have hkeep : ∀ (h' : Limbs) (rest : List (BitVec 8)),
      (if rest.length ≠ 0 then (⟨r, h', pad0, pad1, [] ++ rest, final⟩ : Poly1305State)
        else ⟨r, h', pad0, pad1, [], final⟩) = ⟨r, h', pad0, pad1, rest, final⟩ := by
    intro h' rest
    split
    · rfl
    · next hempty => rw [List.eq_nil_of_length_eq_zero (not_not.mp hempty)]
  unfold updateWhole Poly1305State.absorbed
  dsimp only
  by_cases hlen : m.length ≥ 16
  · rw [if_pos hlen, if_pos hlen, Blocks.absorb_split (by decide)]
    exact hkeep _ _
  · rw [if_neg hlen, if_neg hlen, List.drop_zero, Blocks.absorb_of_lt (by simpa using hlen)]
    exact hkeep _ _

/-- **A part of the message is taken in as if octet by octet.** -/
theorem poly1305Update_eq {st : Poly1305State} (hbuf : st.buffer.length < 16) (m : List (BitVec 8)) :
    poly1305Update st m = st.absorbed m := by
  unfold poly1305Update
  by_cases hempty : st.buffer.length ≠ 0
  · rw [if_pos hempty]
    dsimp only
    by_cases hfill : m.length < 16 - st.buffer.length
    · have hwant : min (16 - st.buffer.length) m.length = m.length := Nat.min_eq_right hfill.le
      rw [hwant, List.take_length, if_pos (by rw [List.length_append]; omega), Poly1305State.absorbed,
        Blocks.absorb_of_lt (by omega)]
    · have hwant : min (16 - st.buffer.length) m.length = 16 - st.buffer.length :=
        Nat.min_eq_left (Nat.le_of_not_lt hfill)
      have htake : (m.take (16 - st.buffer.length)).length = 16 - st.buffer.length := by
        rw [List.length_take]
        omega
      have hne : m.take (16 - st.buffer.length) ≠ [] := List.ne_nil_of_length_pos (by omega)
      have hfull : (st.buffer ++ m.take (16 - st.buffer.length)).length = 16 := by
        rw [List.length_append]
        omega
      have hone : Blocks.absorb 16 (poly1305Block st.r st.hibit) (st.h, st.buffer) (m.take (16 - st.buffer.length)) =
          (poly1305Block st.r st.hibit st.h (st.buffer ++ m.take (16 - st.buffer.length)), []) :=
        Blocks.absorb_of_eq hne (by omega)
      have hblocks : Blocks.blocks 16 (poly1305Block st.r st.hibit) st.h
          (st.buffer ++ m.take (16 - st.buffer.length)) =
            poly1305Block st.r st.hibit st.h (st.buffer ++ m.take (16 - st.buffer.length)) := by
        rw [Blocks.blocks_of_le (by decide) hfull.ge, Blocks.blocks_of_lt (by rw [List.length_drop]; omega),
          List.take_of_length_le hfull.le]
      have hall : Blocks.absorb 16 (poly1305Block st.r st.hibit) (st.h, st.buffer) m =
          Blocks.absorb 16 (poly1305Block st.r st.hibit) (Blocks.blocks 16 (poly1305Block st.r st.hibit) st.h
            (st.buffer ++ m.take (16 - st.buffer.length)), []) (m.drop (16 - st.buffer.length)) := by
        rw [hblocks, ← hone, ← Blocks.absorb_append, List.take_append_drop]
      rw [hwant, if_neg (by omega), updateWhole_eq rfl, Poly1305State.absorbed, Poly1305State.absorbed, hall]
      rfl
  · rw [if_neg hempty]
    exact updateWhole_eq (List.eq_nil_of_length_eq_zero (not_not.mp hempty)) m

theorem Poly1305State.absorbed_absorbed (st : Poly1305State) (m m' : List (BitVec 8)) :
    (st.absorbed m).absorbed m' = st.absorbed (m ++ m') := by
  simp only [Poly1305State.absorbed, Blocks.absorb_append]
  rfl

/-- The parts do not matter. -/
theorem foldl_poly1305Update {st : Poly1305State} (hbuf : st.buffer.length < 16) (parts : List (List (BitVec 8))) :
    parts.foldl poly1305Update st = st.absorbed parts.flatten := by
  induction parts generalizing st with
  | nil => rfl
  | cons m parts ih =>
    have hnext : (st.absorbed m).buffer.length < 16 := Blocks.length_absorb_lt hbuf m
    rw [List.foldl_cons, poly1305Update_eq hbuf, ih hnext, Poly1305State.absorbed_absorbed, List.flatten_cons]

/-- The last block: closed with an octet 1, its bit is the one above the octets it has. -/
theorem leNat_closed {m : List (BitVec 8)} (n : ℕ) : leNat (m ++ 1#8 :: List.replicate n 0#8) = blockNat m := by
  have hone : leNat (1#8 :: List.replicate n 0#8) = 1 := leNat_append_zeros [1#8] n
  rw [leNat_append, hone, Nat.mul_one, blockNat]

/-- What is left of the message is made a block, and the tag computed. -/
theorem leNat_poly1305Finish {st : Poly1305State} (hr : st.r.Clamped) (hh : st.h.Reduced)
    (hbuf : st.buffer.length < 16) :
    leNat (poly1305Finish st) = (polyAccumulate st.r.value (st.h.value % poly1305P) st.buffer +
      (st.pad0.toNat + 2 ^ 64 * st.pad1.toNat)) % 2 ^ 128 := by
  unfold poly1305Finish
  by_cases hempty : st.buffer = []
  · rw [hempty, polyAccumulate_nil]
    exact leNat_finish hh st.pad0 st.pad1
  · have hpos := List.length_pos_iff.mpr hempty
    have hfull : (st.buffer ++ 1#8 :: List.replicate (15 - st.buffer.length) 0#8).length = 16 := by
      rw [List.length_append, List.length_cons, List.length_replicate]
      omega
    obtain ⟨hred, hmod⟩ := poly1305Block_spec hr hh hfull (.inl rfl)
    have hblocks : Blocks.blocks 16 (poly1305Block st.r 0#64) st.h
        (st.buffer ++ 1#8 :: List.replicate (15 - st.buffer.length) 0#8) = poly1305Block st.r 0#64 st.h
          (st.buffer ++ 1#8 :: List.replicate (15 - st.buffer.length) 0#8) := by
      rw [Blocks.blocks_of_le (by decide) hfull.ge, Blocks.blocks_of_lt (by rw [List.length_drop]; omega),
        List.take_of_length_le hfull.le]
    have hzero : leNat (st.buffer ++ 1#8 :: List.replicate (15 - st.buffer.length) 0#8) + 2 ^ 88 * (0#64).toNat =
        blockNat st.buffer := by
      rw [leNat_closed, BitVec.toNat_zero, Nat.mul_zero, Nat.add_zero]
    have hstep : (st.h.value % poly1305P + blockNat (st.buffer.take 16)) * st.r.value % poly1305P =
        (poly1305Block st.r 0#64 st.h
          (st.buffer ++ 1#8 :: List.replicate (15 - st.buffer.length) 0#8)).value % poly1305P := by
      rw [List.take_of_length_le hbuf.le, hmod, hzero, Nat.mul_mod, Nat.mod_add_mod, ← Nat.mul_mod]
    rw [if_pos (Nat.ne_of_gt hpos), polyAccumulate_cons _ _ hempty, hstep, List.drop_of_length_le hbuf.le,
      polyAccumulate_nil, ← leNat_finish hred st.pad0 st.pad1, ← hblocks]
    rfl

theorem Limbs.reduced_zero : (⟨0, 0, 0⟩ : Limbs).Reduced := ⟨by decide, by decide, by decide⟩

/-- The tag when a message was taken in. -/
theorem leNat_poly1305Finish_absorbed (key : Bytes (BitVec 8) 32) (m : List (BitVec 8)) :
    leNat (poly1305Finish ((poly1305Init key).absorbed m)) = poly1305Nat key m := by
  have hr := poly1305Init_clamped key
  obtain ⟨hred, hacc⟩ := blocks_spec hr Limbs.reduced_zero m
  have habsorb : Blocks.absorb 16 (poly1305Block (poly1305Init key).r (1#64 <<< 40)) (⟨0, 0, 0⟩, []) m =
      (Blocks.blocks 16 (poly1305Block (poly1305Init key).r (1#64 <<< 40)) ⟨0, 0, 0⟩ m, Blocks.rest 16 m) :=
    Blocks.absorb_whole (by decide) _ m
  have hh : ((poly1305Init key).absorbed m).h =
      Blocks.blocks 16 (poly1305Block (poly1305Init key).r (1#64 <<< 40)) ⟨0, 0, 0⟩ m :=
    congrArg Prod.fst habsorb
  have hbuffer : ((poly1305Init key).absorbed m).buffer = Blocks.rest 16 m := congrArg Prod.snd habsorb
  have hclamped : ((poly1305Init key).absorbed m).r.Clamped := hr
  have hreduced : ((poly1305Init key).absorbed m).h.Reduced := hh ▸ hred
  have hrest : ((poly1305Init key).absorbed m).buffer.length < 16 := by
    rw [hbuffer, Blocks.rest, List.length_drop]
    omega
  have hpad : (poly1305Init key).pad0.toNat + 2 ^ 64 * (poly1305Init key).pad1.toNat =
      leNat (key.toList.drop 16) := by
    have hsplit := leNat_words (m := key.toList.drop 16) (by rw [List.length_drop, key.toList_length])
    rw [List.drop_drop] at hsplit
    exact hsplit.symm
  rw [leNat_poly1305Finish hclamped hreduced hrest, hh, hbuffer, poly1305Nat, ← hpad, ← poly1305Init_r]
  exact congrArg (fun acc => (acc + ((poly1305Init key).pad0.toNat + 2 ^ 64 * (poly1305Init key).pad1.toNat)) % 2 ^ 128)
    hacc.symm

/-- Authenticate a message that comes in parts: `crypto_onetimeauth_poly1305_init`, `_update` for each part and
`_final`. -/
def cryptoOnetimeauthPoly1305 (key : Bytes (BitVec 8) 32) (parts : List (List (BitVec 8))) : List (BitVec 8) :=
  poly1305Finish (parts.foldl poly1305Update (poly1305Init key))

/-- Parts taken in one after the other are taken in as one message. -/
theorem cryptoOnetimeauthPoly1305_eq (key : Bytes (BitVec 8) 32) (parts : List (List (BitVec 8))) :
    cryptoOnetimeauthPoly1305 key parts = poly1305Finish ((poly1305Init key).absorbed parts.flatten) := by
  have hempty : (poly1305Init key).buffer.length < 16 := Nat.succ_pos 15
  rw [cryptoOnetimeauthPoly1305, foldl_poly1305Update hempty]

/-- **The tag of a message is Poly1305 of it**, in whatever parts it came: no machine word of the computation ever
overflows. -/
theorem poly1305_spec (key : Bytes (BitVec 8) 32) (parts : List (List (BitVec 8))) :
    leNat (cryptoOnetimeauthPoly1305 key parts) = poly1305Nat key parts.flatten := by
  rw [cryptoOnetimeauthPoly1305_eq, leNat_poly1305Finish_absorbed]

end VpnTunnel
