import Mathlib.Data.Vector.Basic

/-!
# Octet strings

Byte strings of fixed length, fields of a buffer, and little-endian integers, for programs that
build and take apart packets.

Nothing here says what an octet is, only that an 8-bit value can be written as one and read back
(`Octet`). A program over `BitVec 8` computes on real bytes; the same program over another octet
type, with more octets than there are bytes, computes on strings in which (say) a digest is not a
number, so that statements no function on bytes can satisfy, "the hash has no collisions", have a
meaning.
-/

namespace Octets

/-- A type of octets: a byte can be written as an octet and read back. -/
class Octet (β : Type) where
  /-- Write a byte. -/
  ofByte : BitVec 8 → β
  /-- Read a byte. -/
  toByte : β → BitVec 8
  /-- What was written is read. -/
  toByte_ofByte : ∀ b, toByte (ofByte b) = b

export Octet (ofByte toByte)

attribute [simp] Octet.toByte_ofByte

/-- Real bytes. -/
instance : Octet (BitVec 8) := ⟨id, id, fun _ => rfl⟩

/-- A string of `n` octets, `uint8_t[n]`. -/
abbrev Bytes (β : Type) (n : ℕ) := List.Vector β n

variable {β : Type} {n : ℕ}

/-- The string of `n` zero octets. -/
def zeroBytes [Octet β] (n : ℕ) : Bytes β n := List.Vector.replicate n (ofByte 0#8)

/-- A list as a string of its own length. -/
def ofList (l : List β) : Bytes β l.length := ⟨l, rfl⟩

@[simp] theorem toList_ofList (l : List β) : (ofList l).toList = l := List.Vector.toList_mk _ _

/-- One string after the other. -/
def join {m k : ℕ} (u : Bytes β m) (v : Bytes β n) (h : m + n = k) : Bytes β k :=
  ⟨u.toList ++ v.toList, by rw [List.length_append, u.toList_length, v.toList_length, h]⟩

@[simp] theorem toList_join {m k : ℕ} (u : Bytes β m) (v : Bytes β n) (h : m + n = k) :
    (join u v h).toList = u.toList ++ v.toList := List.Vector.toList_mk _ _

/-- Both strings can be told from the joined one. -/
theorem join_inj {m k : ℕ} {u u' : Bytes β m} {v v' : Bytes β n} {h : m + n = k}
    (heq : join u v h = join u' v' h) : u = u' ∧ v = v' := by
  have hlist := congrArg List.Vector.toList heq
  rw [toList_join, toList_join] at hlist
  obtain ⟨hu, hv⟩ := List.append_inj hlist (by simp)
  exact ⟨List.Vector.eq _ _ hu, List.Vector.eq _ _ hv⟩

/-! ### Fields of a buffer -/

/-- The `n` octets of `buf` from `off`. The reader must show that they lie inside the buffer. -/
def slice (buf : List β) (off n : ℕ) (h : off + n ≤ buf.length) : Bytes β n :=
  ⟨(buf.drop off).take n, by rw [List.length_take, List.length_drop]; omega⟩

/-- Octets are read where they stand. -/
theorem toList_slice {buf : List β} {off : ℕ} (pre post : List β) {data : List β}
    (hbuf : buf = pre ++ (data ++ post)) (hoff : pre.length = off) (hdata : data.length = n)
    (h : off + n ≤ buf.length) : (slice buf off n h).toList = data := by
  subst hbuf hoff
  simp only [slice, List.Vector.toList_mk, List.drop_left]
  exact List.take_left' hdata

/-- A field at the start of a buffer is read. -/
@[simp] theorem slice_zero {post : List β} {v : Bytes β n} (h : 0 + n ≤ (v.toList ++ post).length) :
    slice (v.toList ++ post) 0 n h = v :=
  List.Vector.eq _ _ (toList_slice [] post rfl rfl v.toList_length h)

/-- A field that fills the buffer is read. -/
@[simp] theorem slice_whole {v : Bytes β n} (h : 0 + n ≤ v.toList.length) : slice v.toList 0 n h = v := by
  apply List.Vector.eq
  simp only [slice, List.Vector.toList_mk, List.drop_zero]
  exact List.take_of_length_le (Nat.le_of_eq v.toList_length)

/-- Fields that end before the one read are passed over. -/
theorem slice_append {pre post : List β} {off : ℕ} (hpre : pre.length ≤ off)
    (h : off + n ≤ (pre ++ post).length) :
    slice (pre ++ post) off n h =
      slice post (off - pre.length) n (by rw [List.length_append] at h; omega) := by
  apply List.Vector.eq
  simp only [slice, List.Vector.toList_mk, List.drop_append, List.drop_of_length_le hpre, List.nil_append]

/-- A field in front of the rest of a buffer. -/
theorem toList_slice_append_drop {buf : List β} (off : ℕ) (h : off + n ≤ buf.length) :
    (slice buf off n h).toList ++ buf.drop (off + n) = buf.drop off := by
  rw [slice, List.Vector.toList_mk, ← List.drop_drop, List.take_append_drop]

/-- A field at the end of a buffer. -/
theorem toList_slice_of_end {buf : List β} (off : ℕ) (h : off + n ≤ buf.length) (hend : buf.length ≤ off + n) :
    (slice buf off n h).toList = buf.drop off := by
  rw [← toList_slice_append_drop off h, List.drop_of_length_le hend, List.append_nil]

section

variable {m k : ℕ} {u : Bytes β m} {v : Bytes β n} {w : Bytes β k} {h : m + n = k}

/-- The first of two joined strings is read. -/
theorem slice_join_left (hb : 0 + m ≤ (join u v h).toList.length) : slice (join u v h).toList 0 m hb = u :=
  List.Vector.eq _ _ (toList_slice [] v.toList (toList_join u v h) rfl u.toList_length hb)

/-- The second of two joined strings is read. -/
theorem slice_join_right (hb : m + n ≤ (join u v h).toList.length) : slice (join u v h).toList m n hb = v :=
  List.Vector.eq _ _
    (toList_slice u.toList [] (by rw [toList_join, List.append_nil]) u.toList_length v.toList_length hb)

/-- A string is its two parts, joined. -/
theorem join_slice_slice : join (slice w.toList 0 m (by rw [w.toList_length]; omega))
    (slice w.toList m n (by rw [w.toList_length]; omega)) h = w := by
  apply List.Vector.eq
  have hlen : (w.toList.drop m).length ≤ n := by rw [List.length_drop, w.toList_length]; omega
  rw [toList_join, slice, slice, List.Vector.toList_mk, List.Vector.toList_mk, List.drop_zero,
    List.take_of_length_le hlen, List.take_append_drop]

end

/-- Overwrite `buf` with `data` from `off`. -/
def writeAt (buf : List β) (off : ℕ) (data : List β) : List β :=
  buf.take off ++ data ++ buf.drop (off + data.length)

/-- Overwriting a field with one of the same length. -/
theorem writeAt_field {pre old post data : List β} {off : ℕ} (hoff : pre.length = off)
    (hlen : old.length = data.length) :
    writeAt (pre ++ (old ++ post)) off data = pre ++ (data ++ post) := by
  subst hoff
  rw [writeAt, List.take_left, ← hlen, List.drop_append, List.drop_of_length_le (Nat.le_add_right _ _),
    Nat.add_sub_cancel_left, List.drop_left, List.nil_append, List.append_assoc]

@[simp] theorem length_writeAt {buf data : List β} {off : ℕ} (h : off + data.length ≤ buf.length) :
    (writeAt buf off data).length = buf.length := by
  rw [writeAt, List.length_append, List.length_append, List.length_take, List.length_drop]
  omega

/-- In front of what is written no octet changes. -/
theorem get_writeAt_of_lt {buf data : List β} {off k : ℕ} (hoff : k < off) (hk : k < buf.length)
    (h : k < (writeAt buf off data).length) : (writeAt buf off data).get ⟨k, h⟩ = buf.get ⟨k, hk⟩ := by
  have hfront : k < (buf.take off).length := by rw [List.length_take]; omega
  simp only [List.get_eq_getElem, writeAt, List.append_assoc]
  rw [List.getElem_append_left hfront, List.getElem_take]

/-- What was written is read. -/
theorem slice_writeAt {buf : List β} {off : ℕ} {v : Bytes β n} (hin : off ≤ buf.length)
    (h : off + n ≤ (writeAt buf off v.toList).length) : slice (writeAt buf off v.toList) off n h = v := by
  refine List.Vector.eq _ _ (toList_slice (buf.take off) (buf.drop (off + v.toList.length)) ?_ ?_ v.toList_length h)
  · rw [writeAt, List.append_assoc]
  · rw [List.length_take, Nat.min_eq_left hin]

/-- A field in front of it is read as it was. -/
theorem slice_writeAt_of_le {buf data : List β} {off o : ℕ} (ho : o + n ≤ off) (hin : off ≤ buf.length)
    (h : o + n ≤ (writeAt buf off data).length) :
    slice (writeAt buf off data) o n h = slice buf o n (by omega) := by
  apply List.Vector.eq
  have hfront : o ≤ (buf.take off).length := by rw [List.length_take]; omega
  have hshort : n ≤ ((buf.take off).drop o).length := by rw [List.length_drop, List.length_take]; omega
  simp only [slice, List.Vector.toList_mk, writeAt, List.append_assoc]
  rw [List.drop_append_of_le_length hfront, List.take_append_of_le_length hshort, List.drop_take, List.take_take,
    Nat.min_eq_left (by omega)]

/-- So is a field behind it. -/
theorem slice_writeAt_of_ge {buf data : List β} {off o : ℕ} (ho : off + data.length ≤ o) (hin : off ≤ buf.length)
    (h : o + n ≤ (writeAt buf off data).length) (h' : o + n ≤ buf.length) :
    slice (writeAt buf off data) o n h = slice buf o n h' := by
  apply List.Vector.eq
  have hlen : (buf.take off ++ data).length = off + data.length := by
    rw [List.length_append, List.length_take, Nat.min_eq_left hin]
  simp only [slice, List.Vector.toList_mk, writeAt]
  rw [List.drop_append, List.drop_of_length_le (by omega), List.nil_append, List.drop_drop, hlen,
    Nat.add_sub_cancel' ho]

/-- What stands up to the end of the first part of what was written. -/
theorem take_writeAt {buf x y : List β} {off : ℕ} (hin : off ≤ buf.length) :
    (writeAt buf off (x ++ y)).take (off + x.length) = buf.take off ++ x := by
  have hlen : (buf.take off ++ x).length = off + x.length := by
    rw [List.length_append, List.length_take, Nat.min_eq_left hin]
  rw [writeAt, ← List.append_assoc, List.append_assoc, List.take_left' hlen]

/-- Overwrite a string with `data` from `off`. The writer must show that it lies inside the string. -/
def store (buf : Bytes β n) (off : ℕ) (data : List β) (h : off + data.length ≤ n) : Bytes β n :=
  ⟨writeAt buf.toList off data, by rw [length_writeAt (by rwa [buf.toList_length]), buf.toList_length]⟩

@[simp] theorem toList_store (buf : Bytes β n) (off : ℕ) (data : List β) (h : off + data.length ≤ n) :
    (store buf off data h).toList = writeAt buf.toList off data := List.Vector.toList_mk _ _

/-- Writing the next field of a buffer that is filled from the left. -/
theorem writeAt_fill {done data : List β} {off : ℕ} (m : ℕ) (x : β) (hoff : done.length = off) :
    writeAt (done ++ List.replicate m x) off data =
      (done ++ data) ++ List.replicate (m - data.length) x := by
  subst hoff
  rw [writeAt, List.take_left, List.drop_append, List.drop_of_length_le (Nat.le_add_right _ _),
    Nat.add_sub_cancel_left, List.drop_replicate, List.nil_append]

/-- Leaving the next `g` octets of such a buffer as they are. -/
theorem replicate_skip {done : List β} {g m : ℕ} (x : β) (h : g ≤ m) :
    done ++ List.replicate m x = (done ++ List.replicate g x) ++ List.replicate (m - g) x := by
  rw [List.append_assoc, List.replicate_append_replicate, Nat.add_sub_cancel' h]

/-! ### Little-endian integers -/

variable [Octet β]

/-- The octets of `p` as the octets `off`, `off + 1`, … of a word: `p[0] << 8*off | p[1] << 8*(off+1) | …`. -/
def leReadFrom (w : ℕ) : ℕ → List β → BitVec w
  | _, [] => 0
  | off, b :: p => ((toByte b).setWidth w <<< (8 * off)) ||| leReadFrom w (off + 1) p

/-- The octets `off`, `off + 1`, … of a word, `n` of them: `v >> 8*off`, `v >> 8*(off+1)`, …. -/
def leWriteFrom {w : ℕ} (v : BitVec w) : ℕ → ℕ → List β
  | _, 0 => []
  | off, n + 1 => ofByte ((v >>> (8 * off)).setWidth 8) :: leWriteFrom v (off + 1) n

@[simp] theorem length_leWriteFrom {w : ℕ} (v : BitVec w) (off n : ℕ) :
    (leWriteFrom v off n : List β).length = n := by
  induction n generalizing off with
  | zero => rfl
  | succ n ih => simp [leWriteFrom, ih]

/-- Reading back the octets written gives the bits of the word they cover. -/
theorem getLsbD_leReadFrom_leWriteFrom {w : ℕ} (v : BitVec w) (off n : ℕ) {k : ℕ} (hk : k < w) :
    (leReadFrom w off (leWriteFrom v off n : List β)).getLsbD k =
      (decide (8 * off ≤ k ∧ k < 8 * (off + n)) && v.getLsbD k) := by
  induction n generalizing off with
  | zero =>
    have hempty : ¬ (8 * off ≤ k ∧ k < 8 * (off + 0)) := by omega
    simp only [leWriteFrom, leReadFrom, hempty, decide_false, Bool.false_and]
    exact BitVec.getLsbD_zero
  | succ n ih =>
    simp only [leWriteFrom, leReadFrom, BitVec.getLsbD_or, ih, BitVec.getLsbD_shiftLeft,
      BitVec.getLsbD_setWidth, Octet.toByte_ofByte, BitVec.getLsbD_ushiftRight]
    by_cases hlo : 8 * off ≤ k
    · have hback : 8 * off + (k - 8 * off) = k := by omega
      rw [hback]
      by_cases hhi : k < 8 * (off + 1)
      · have h8 : k - 8 * off < 8 := by omega
        have hin : 8 * off ≤ k ∧ k < 8 * (off + (n + 1)) := by omega
        simp [hk, Nat.not_lt.mpr hlo, h8, hin, show k - 8 * off < w by omega, show ¬ 8 * (off + 1) ≤ k by omega]
      · have h8 : ¬ k - 8 * off < 8 := by omega
        have hiff : (8 * (off + 1) ≤ k ∧ k < 8 * (off + 1 + n)) ↔ (8 * off ≤ k ∧ k < 8 * (off + (n + 1))) := by omega
        simp [h8, hiff]
    · have hout : ¬ (8 * off ≤ k ∧ k < 8 * (off + (n + 1))) := by omega
      have hout' : ¬ (8 * (off + 1) ≤ k ∧ k < 8 * (off + 1 + n)) := by omega
      simp [Nat.lt_of_not_le hlo, hout, hout']

/-- A word written little-endian is read back. -/
theorem leReadFrom_leWriteFrom {w n : ℕ} (v : BitVec w) (hn : w ≤ 8 * n) :
    leReadFrom w 0 (leWriteFrom v 0 n : List β) = v := by
  apply BitVec.eq_of_getLsbD_eq
  intro k hk
  have hin : 8 * 0 ≤ k ∧ k < 8 * (0 + n) := by omega
  rw [getLsbD_leReadFrom_leWriteFrom v 0 n hk, decide_eq_true hin, Bool.true_and]

/-- What is read from octet `off` on has no bits below it. -/
theorem getLsbD_leReadFrom_of_lt {w : ℕ} (p : List β) {off k : ℕ} (hk : k < 8 * off) :
    (leReadFrom w off p).getLsbD k = false := by
  induction p generalizing off with
  | nil => exact BitVec.getLsbD_zero
  | cons b p ih =>
    rw [leReadFrom, BitVec.getLsbD_or, BitVec.getLsbD_shiftLeft, ih (by omega), decide_eq_true hk]
    simp

/-- The octets from `off` on depend on the bits from there on. -/
theorem leWriteFrom_congr {w : ℕ} {v v' : BitVec w} {off : ℕ} (h : ∀ k, 8 * off ≤ k → v.getLsbD k = v'.getLsbD k)
    (n : ℕ) : (leWriteFrom v off n : List β) = leWriteFrom v' off n := by
  induction n generalizing off with
  | zero => rfl
  | succ n ih =>
    have hoctet : (v >>> (8 * off)).setWidth 8 = (v' >>> (8 * off)).setWidth 8 := by
      apply BitVec.eq_of_getLsbD_eq
      intro k hk
      rw [BitVec.getLsbD_setWidth, BitVec.getLsbD_setWidth, BitVec.getLsbD_ushiftRight, BitVec.getLsbD_ushiftRight,
        h (8 * off + k) (Nat.le_add_right _ _)]
    rw [leWriteFrom, leWriteFrom, hoctet, ih fun k hk => h k (by omega)]

/-- Real bytes read as a word that has room for them are written again. -/
theorem leWriteFrom_leReadFrom {w : ℕ} (p : List (BitVec 8)) {off : ℕ} (h : 8 * (off + p.length) ≤ w) :
    leWriteFrom (leReadFrom w off p) off p.length = p := by
  induction p generalizing off with
  | nil => rfl
  | cons b p ih =>
    rw [List.length_cons] at h
    have hhead : (leReadFrom w off (b :: p) >>> (8 * off)).setWidth 8 = b := by
      apply BitVec.eq_of_getLsbD_eq
      intro k hk
      have hw : 8 * off + k < w := by omega
      rw [BitVec.getLsbD_setWidth, BitVec.getLsbD_ushiftRight, leReadFrom, BitVec.getLsbD_or,
        getLsbD_leReadFrom_of_lt p (by omega), BitVec.getLsbD_shiftLeft, BitVec.getLsbD_setWidth,
        Nat.add_sub_cancel_left, Bool.or_false]
      simp only [hk, hw, decide_true, Bool.true_and, Nat.not_lt.mpr (Nat.le_add_right (8 * off) k), decide_false,
        Bool.not_false, show k < w by omega]
      rfl
    have htail : leWriteFrom (leReadFrom w off (b :: p)) (off + 1) p.length = p := by
      refine (leWriteFrom_congr (fun k hk => ?_) p.length).trans (ih (by omega : 8 * (off + 1 + p.length) ≤ w))
      have hbyte : (toByte b).getLsbD (k - 8 * off) = false := BitVec.getLsbD_of_ge _ _ (by omega)
      rw [leReadFrom, BitVec.getLsbD_or, BitVec.getLsbD_shiftLeft, BitVec.getLsbD_setWidth, hbyte]
      simp
    rw [List.length_cons, leWriteFrom, htail, hhead]
    rfl

/-- So it is with a whole word. -/
theorem leWriteFrom_leReadFrom_toList {w n : ℕ} (p : Bytes (BitVec 8) n) (h : 8 * n ≤ w) :
    leWriteFrom (leReadFrom w 0 p.toList) 0 n = p.toList := by
  have hlen : p.toList.length = n := p.toList_length
  have hp : 8 * (0 + p.toList.length) ≤ w := by omega
  rw [← congrArg (leWriteFrom (leReadFrom w 0 p.toList) 0) hlen]
  exact leWriteFrom_leReadFrom p.toList hp

end Octets
