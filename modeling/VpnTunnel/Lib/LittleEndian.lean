import Mathlib.Data.Nat.Digits.Lemmas
import VpnTunnel.Lib.Octets

/-!
# Strings of bytes as numbers

A string of bytes stands for a number, its first byte the lowest (`leNat`). Words are read from and written to
strings as the numbers they are, and the bits of two strings can be combined word by word
(`leWriteFrom_xor_leReadFrom`).
-/

namespace Octets

/-- The number a string of bytes stands for. -/
def leNat (p : List (BitVec 8)) : ℕ := Nat.ofDigits 256 (p.map BitVec.toNat)

@[simp] theorem leNat_nil : leNat [] = 0 := rfl

theorem leNat_cons (b : BitVec 8) (p : List (BitVec 8)) : leNat (b :: p) = b.toNat + 256 * leNat p := by
  rw [leNat, List.map_cons, Nat.ofDigits_cons, leNat]

theorem leNat_append (p q : List (BitVec 8)) : leNat (p ++ q) = leNat p + 2 ^ (8 * p.length) * leNat q := by
  rw [leNat, List.map_append, Nat.ofDigits_append, List.length_map, Nat.pow_mul, leNat, leNat]

/-- Zero bytes at the end do not count. -/
theorem leNat_append_zeros (p : List (BitVec 8)) (n : ℕ) : leNat (p ++ List.replicate n 0#8) = leNat p := by
  have hzeros : leNat (List.replicate n 0#8) = 0 := by
    induction n with
    | zero => rfl
    | succ n ih => rw [List.replicate_succ, leNat_cons, ih, BitVec.toNat_zero]
  rw [leNat_append, hzeros, Nat.mul_zero, Nat.add_zero]

/-- A string is determined by its length and its number. -/
theorem leNat_inj {p q : List (BitVec 8)} (hlen : p.length = q.length) (h : leNat p = leNat q) : p = q := by
  induction p generalizing q with
  | nil =>
    rw [List.length_nil] at hlen
    exact (List.eq_nil_of_length_eq_zero hlen.symm).symm
  | cons b p ih =>
    cases q with
    | nil => cases hlen
    | cons c q =>
      rw [leNat_cons, leNat_cons] at h
      have hb := b.isLt
      have hc := c.isLt
      have htail : leNat p = leNat q := by omega
      have hhead : b = c := BitVec.eq_of_toNat_eq (by omega)
      rw [hhead, ih (Nat.succ.inj hlen) htail]

/-- A word read from a string is its number. -/
theorem toNat_leReadFrom {w : ℕ} (p : List (BitVec 8)) {off : ℕ} (h : 8 * (off + p.length) ≤ w) :
    (leReadFrom w off p).toNat = 2 ^ (8 * off) * leNat p := by
  induction p generalizing off with
  | nil => simp [leReadFrom]
  | cons b p ih =>
    rw [List.length_cons] at h
    have hb : b.toNat < 2 ^ 8 := b.isLt
    have hlow : b.toNat * 2 ^ (8 * off) < 2 ^ (8 * (off + 1)) := by
      rw [Nat.mul_succ, Nat.pow_add, Nat.mul_comm (2 ^ (8 * off))]
      exact Nat.mul_lt_mul_of_pos_right hb (Nat.two_pow_pos _)
    have hfit : b.toNat * 2 ^ (8 * off) < 2 ^ w := hlow.trans_le (Nat.pow_le_pow_right (by decide) (by omega))
    have hword : b.toNat < 2 ^ w := hb.trans_le (Nat.pow_le_pow_right (by decide) (by omega))
    have hbyte : ((toByte b).setWidth w <<< (8 * off)).toNat = b.toNat * 2 ^ (8 * off) := by
      rw [BitVec.toNat_shiftLeft, BitVec.toNat_setWidth, Nat.shiftLeft_eq]
      exact (congrArg (· * 2 ^ (8 * off) % 2 ^ w) (Nat.mod_eq_of_lt hword)).trans (Nat.mod_eq_of_lt hfit)
    rw [leReadFrom, BitVec.toNat_or, ih (by omega), hbyte, Nat.or_comm, ← Nat.two_pow_add_eq_or_of_lt hlow, leNat_cons,
      Nat.mul_add, Nat.mul_succ, Nat.pow_add]
    ring

/-- The bytes written of a word are those of its number. -/
theorem leNat_leWriteFrom {w : ℕ} (v : BitVec w) (off n : ℕ) :
    leNat (leWriteFrom v off n) = v.toNat / 2 ^ (8 * off) % 2 ^ (8 * n) := by
  induction n generalizing off with
  | zero =>
    rw [Nat.mul_zero, Nat.pow_zero, Nat.mod_one]
    rfl
  | succ n ih =>
    have hbyte : ((v >>> (8 * off)).setWidth 8).toNat = v.toNat / 2 ^ (8 * off) % 2 ^ 8 := by
      rw [BitVec.toNat_setWidth, BitVec.toNat_ushiftRight, Nat.shiftRight_eq_div_pow]
    rw [leWriteFrom, leNat_cons, ih, Nat.mul_succ, Nat.pow_add 2 (8 * off), ← Nat.div_div_eq_div_mul, Nat.mul_succ,
      Nat.add_comm (8 * n), Nat.pow_add, Nat.mod_mul]
    exact congrArg (· + 256 * (v.toNat / 2 ^ (8 * off) / 2 ^ 8 % 2 ^ (8 * n))) hbyte

/-- The bytes of a word of 64 bits. -/
theorem leNat_leWriteFrom_zero {w n : ℕ} (v : BitVec w) (h : w ≤ 8 * n) : leNat (leWriteFrom v 0 n) = v.toNat := by
  rw [leNat_leWriteFrom, Nat.mul_zero, Nat.pow_zero, Nat.div_one]
  exact Nat.mod_eq_of_lt (v.isLt.trans_le (Nat.pow_le_pow_right (by decide) h))

theorem leWriteFrom_xor {w : ℕ} (a b : BitVec w) (off n : ℕ) : (leWriteFrom (a ^^^ b) off n : List (BitVec 8)) =
    List.zipWith (· ^^^ ·) (leWriteFrom a off n) (leWriteFrom b off n) := by
  induction n generalizing off with
  | zero => rfl
  | succ n ih =>
    rw [leWriteFrom, leWriteFrom, leWriteFrom, List.zipWith_cons_cons, ih, BitVec.ushiftRight_xor_distrib,
      BitVec.setWidth_xor]
    rfl

/-- Combining a word with one that is read from a string combines their bytes. -/
theorem leWriteFrom_xor_leReadFrom {w : ℕ} (v : BitVec w) {p : List (BitVec 8)} (h : 8 * p.length ≤ w) :
    leWriteFrom (v ^^^ leReadFrom w 0 p) 0 p.length = List.zipWith (· ^^^ ·) (leWriteFrom v 0 p.length) p := by
  rw [leWriteFrom_xor, leWriteFrom_leReadFrom p (by omega)]

end Octets
