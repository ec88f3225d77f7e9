import Mathlib.Data.Int.Notation
import Mathlib.Data.Nat.Digits.Lemmas

/-!
# Numbers in C strings

How the C library reads and prints numbers, and finds characters. A string is the list of its octets in front
of the terminating NUL. Where the C standard leaves a conversion that does not fit undefined, this is what
glibc does with a `long` of 64 bits and an `int` of 32: `strtol` and `strtoul` stop at the ends of their ranges,
and what they return is then cut to the width of the variable.

All decimal conversions begin in one way (`numeral`): white space is skipped, one sign is taken, and then as
many digits as there are. A string of digits and nothing else (`Digits`) is read as the number it stands for
(`numeral_append`), and what is printed is such a string (`digits_formatUnsigned`, `decimal_formatUnsigned`).
-/

namespace CString

/-- The octets of a text in ASCII. -/
def ofText (s : String) : List (BitVec 8) := s.toList.map fun c => BitVec.ofNat 8 c.toNat

/-- The string in a buffer: what stands in front of the first NUL. -/
def ofBuffer (buf : List (BitVec 8)) : List (BitVec 8) := buf.takeWhile fun c => c != 0#8

/-- White space, `isspace` in the C locale. -/
def isSpace (c : BitVec 8) : Bool := c == 0x20#8 || (0x09#8 ≤ c && c ≤ 0x0d#8)

/-- A decimal digit, `isdigit`. -/
def isDigit (c : BitVec 8) : Bool := 0x30#8 ≤ c && c ≤ 0x39#8

/-- The value of a string of digits. -/
def decimal (digits : List (BitVec 8)) : ℕ := digits.foldl (fun n c => 10 * n + (c.toNat - 0x30)) 0

/-- A number at the start of a string. -/
structure Numeral where
  /-- There is a minus sign. -/
  negative : Bool
  /-- The value of the digits. -/
  value : ℕ
  /-- What follows the digits. -/
  rest : List (BitVec 8)
  deriving DecidableEq, Repr

/-- Take a sign. -/
def sign : List (BitVec 8) → Bool × List (BitVec 8)
  | [] => (false, [])
  | c :: s => if c = 0x2d#8 then (true, s) else if c = 0x2b#8 then (false, s) else (false, c :: s)

/-- The number at the start of a string, if there is a digit. -/
def numeral (s : List (BitVec 8)) : Option Numeral :=
  let signed := sign (s.dropWhile isSpace)
  let digits := signed.2.takeWhile isDigit
  if digits.isEmpty then none else some ⟨signed.1, decimal digits, signed.2.dropWhile isDigit⟩

/-- The number as a `long`, as `strtol` returns it. -/
def Numeral.toLong (n : Numeral) : ℤ :=
  if n.negative then if n.value ≤ 0x8000000000000000 then -n.value else -0x8000000000000000
  else if n.value ≤ 0x7fffffffffffffff then n.value else 0x7fffffffffffffff

/-- The number as an `unsigned long`, as `strtoul` returns it: a minus sign negates what fits. -/
def Numeral.toUnsignedLong (n : Numeral) : BitVec 64 :=
  if n.value ≤ 0xffffffffffffffff then BitVec.ofInt 64 (if n.negative then -n.value else n.value)
  else 0xffffffffffffffff

/-- The number at the start of a string as an `int`, `atoi`. Without a digit it is 0. -/
def atoi (s : List (BitVec 8)) : ℤ :=
  match numeral s with
  | none => 0
  | some n => (BitVec.ofInt 32 n.toLong).toInt

/-- The conversion `%u` of `sscanf`: the number and what follows it. -/
def scanUnsigned (s : List (BitVec 8)) : Option (BitVec 32 × List (BitVec 8)) :=
  (numeral s).map fun n => (n.toUnsignedLong.setWidth 32, n.rest)

/-- A character in the format of `sscanf`: what follows it. -/
def scanChar (c : BitVec 8) : List (BitVec 8) → Option (List (BitVec 8))
  | [] => none
  | x :: s => if x = c then some s else none

/-- Where a character stands first, `strchr`. -/
def strchr (s : List (BitVec 8)) (c : BitVec 8) : Option ℕ := s.findIdx? fun x => x == c

/-- Where a character stands last, `strrchr`. -/
def strrchr : List (BitVec 8) → BitVec 8 → Option ℕ
  | [], _ => none
  | x :: s, c =>
    match strrchr s c with
    | some k => some (k + 1)
    | none => if x = c then some 0 else none

/-- A hexadecimal digit, `isxdigit`. -/
def isXDigit (c : BitVec 8) : Bool := isDigit c || (0x41#8 ≤ c && c ≤ 0x46#8) || (0x61#8 ≤ c && c ≤ 0x66#8)

/-- The value of a hexadecimal digit. -/
def hexValue (c : BitVec 8) : ℕ :=
  if isDigit c then c.toNat - 0x30 else if c ≤ 0x46#8 then c.toNat - 0x37 else c.toNat - 0x57

/-- The value of a string of hexadecimal digits. -/
def hexadecimal (digits : List (BitVec 8)) : ℕ := digits.foldl (fun n c => 16 * n + hexValue c) 0

/-- The conversion `%02x` of `sscanf`, into an `unsigned`: white space is skipped and not counted, and of the next
two characters a sign is taken and as many digits as there are. The two characters `0x` (or `0X`) are the start
of a number without its digits: a C library reads them as 0 or, if `strict0x` is set, as the standard has it,
fails. -/
def scanHex2 (strict0x : Bool) (s : List (BitVec 8)) : Option (BitVec 32) :=
  let signed := sign ((s.dropWhile isSpace).take 2)
  let digits := signed.2.takeWhile isXDigit
  if digits.isEmpty then none
  else if strict0x && (signed.2 == [0x30#8, 0x78#8] || signed.2 == [0x30#8, 0x58#8]) then none
  else some (BitVec.ofInt 32 (if signed.1 then -hexadecimal digits else hexadecimal digits))

/-- Where `%02x` finds a number: behind white space stands a hexadecimal digit, which is not the 0 of a bare `0x` if
that is refused, or a sign and a hexadecimal digit. -/
def HasHex2 (strict0x : Bool) (s : List (BitVec 8)) : Prop :=
  (∃ c rest, s.dropWhile isSpace = c :: rest ∧ isXDigit c = true ∧
    ¬ (strict0x = true ∧ c = 0x30#8 ∧ (rest.head? = some 0x78#8 ∨ rest.head? = some 0x58#8))) ∨
  ∃ c d rest, s.dropWhile isSpace = c :: d :: rest ∧ (c = 0x2d#8 ∨ c = 0x2b#8) ∧ isXDigit d = true

/-- The digit of a number below sixteen, in lower case. -/
def hexChar (d : ℕ) : BitVec 8 := if d < 10 then BitVec.ofNat 8 (0x30 + d) else BitVec.ofNat 8 (0x57 + d)

/-- The conversion `%02x` of `printf`, of an octet. -/
def formatHex2 (b : BitVec 8) : List (BitVec 8) := [hexChar (b.toNat / 16), hexChar (b.toNat % 16)]

/-- A letter in lower case, `tolower`. -/
def toLower (c : BitVec 8) : BitVec 8 := if 0x41#8 ≤ c && c ≤ 0x5a#8 then c + 0x20#8 else c

/-- The digit of a number below ten. -/
def digitChar (d : ℕ) : BitVec 8 := BitVec.ofNat 8 (0x30 + d)

/-- The conversion `%u` of `printf`. -/
def formatUnsigned (n : ℕ) : List (BitVec 8) :=
  if n = 0 then [0x30#8] else (Nat.digits 10 n).reverse.map digitChar

example : atoi (ofText " -12a") = -12 ∧ atoi (ofText "4294967296") = 0 ∧ atoi (ofText "x") = 0 := by decide

example : scanUnsigned (ofText "-1.2") = some (0xffffffff, ofText ".2") := by decide

/-! ### Finding a character -/

section

variable {s pre post : List (BitVec 8)} {c : BitVec 8} {k : ℕ}

/-- `strchr` splits a string at the first such character. -/
theorem strchr_eq_some : strchr s c = some k ↔ ∃ pre post, s = pre ++ c :: post ∧ c ∉ pre ∧ pre.length = k := by
  rw [strchr, List.findIdx?_eq_some_iff_getElem]
  constructor
  · rintro ⟨hk, hc, hbefore⟩
    refine ⟨s.take k, s.drop (k + 1), ?_, fun hmem => ?_, List.length_take_of_le (Nat.le_of_lt hk)⟩
    · rw [← beq_iff_eq.mp hc, List.getElem_cons_drop, List.take_append_drop]
    · obtain ⟨j, hj, hget⟩ := List.mem_take_iff_getElem.mp hmem
      exact hbefore j (by omega) (beq_iff_eq.mpr hget)
  · rintro ⟨pre, post, rfl, hpre, rfl⟩
    refine ⟨by simp, by simp, fun j hj hget => hpre ?_⟩
    rw [List.getElem_append_left hj, beq_iff_eq] at hget
    exact hget ▸ List.getElem_mem hj

theorem strchr_append (hpre : c ∉ pre) (post : List (BitVec 8)) : strchr (pre ++ c :: post) c = some pre.length :=
  strchr_eq_some.mpr ⟨pre, post, rfl, hpre, rfl⟩

/-- Where a character stands first, there is one way to split a string. -/
theorem append_cons_inj {pre' post' : List (BitVec 8)} (hpre : c ∉ pre) (hpre' : c ∉ pre')
    (h : pre ++ c :: post = pre' ++ c :: post') : pre = pre' ∧ post = post' := by
  have hlen := strchr_append hpre post
  rw [h, strchr_append hpre', Option.some.injEq] at hlen
  obtain ⟨hfront, htail⟩ := List.append_inj h hlen.symm
  exact ⟨hfront, List.tail_eq_of_cons_eq htail⟩

theorem strchr_eq_none : strchr s c = none ↔ c ∉ s := by
  rw [strchr, List.findIdx?_eq_none_iff]
  constructor
  · intro h hc
    exact absurd (h c hc) (by simp)
  · intro h x hx
    exact beq_eq_false_iff_ne.mpr fun heq => h (heq ▸ hx)

theorem strrchr_eq_none : strrchr s c = none ↔ c ∉ s := by
  induction s with
  | nil => simp [strrchr]
  | cons x s ih =>
    rw [strrchr, List.mem_cons, not_or]
    cases h : strrchr s c with
    | some k =>
      have hc : ¬ c ∉ s := fun hc => by rw [ih.mpr hc] at h; cases h
      simp [hc]
    | none => simp [ih.mp h, eq_comm]

/-- `strrchr` splits a string at the last such character. -/
theorem strrchr_eq_some : strrchr s c = some k ↔ ∃ pre post, s = pre ++ c :: post ∧ c ∉ post ∧ pre.length = k := by
  constructor
  · induction s generalizing k with
    | nil => exact nofun
    | cons x s ih =>
      intro h
      rw [strrchr] at h
      cases hs : strrchr s c with
      | some j =>
        rw [hs] at h
        cases h
        obtain ⟨pre, post, rfl, hpost, rfl⟩ := ih hs
        exact ⟨x :: pre, post, rfl, hpost, rfl⟩
      | none =>
        simp only [hs, Option.ite_none_right_eq_some, Option.some.injEq] at h
        exact ⟨[], s, by rw [h.1]; rfl, strrchr_eq_none.mp hs, h.2⟩
  · rintro ⟨pre, post, rfl, hpost, rfl⟩
    induction pre with
    | nil => rw [List.nil_append, strrchr, strrchr_eq_none.mpr hpost, if_pos rfl, List.length_nil]
    | cons x pre ih => rw [List.cons_append, strrchr, ih, List.length_cons]

theorem strrchr_append (hpost : c ∉ post) : strrchr (pre ++ c :: post) c = some pre.length :=
  strrchr_eq_some.mpr ⟨pre, post, rfl, hpost, rfl⟩

end

/-! ### Strings of digits -/

/-- A decimal number written out: digits, and at least one. -/
structure Digits (ds : List (BitVec 8)) : Prop where
  /-- There is a digit. -/
  ne_nil : ds ≠ []
  /-- There is nothing else. -/
  isDigit_of_mem : ∀ c ∈ ds, isDigit c = true

instance (ds : List (BitVec 8)) : Decidable (Digits ds) :=
  decidable_of_iff (ds ≠ [] ∧ ∀ c ∈ ds, isDigit c = true) ⟨fun h => ⟨h.1, h.2⟩, fun h => ⟨h.1, h.2⟩⟩

section

variable {ds rest : List (BitVec 8)} {c : BitVec 8}

theorem isDigit_iff : isDigit c = true ↔ 0x30 ≤ c.toNat ∧ c.toNat ≤ 0x39 := by
  simp [isDigit, BitVec.le_def]

/-- A digit is no white space. -/
theorem isSpace_of_isDigit (h : isDigit c = true) : isSpace c = false := by
  rw [isDigit_iff] at h
  have hne : c ≠ 0x20#8 := by rintro rfl; exact absurd h.1 (by decide)
  have hgt : ¬ c ≤ 0x0d#8 := by rw [BitVec.le_def]; simp only [BitVec.toNat_ofNat]; omega
  simp [isSpace, hne, hgt]

/-- A digit is no sign. -/
theorem sign_of_isDigit (h : isDigit c = true) : sign (c :: rest) = (false, c :: rest) := by
  rw [isDigit_iff] at h
  have hminus : c ≠ 0x2d#8 := by rintro rfl; exact absurd h.1 (by decide)
  have hplus : c ≠ 0x2b#8 := by rintro rfl; exact absurd h.1 (by decide)
  rw [sign, if_neg hminus, if_neg hplus]

/-- **Digits are read as the number they stand for**, up to the first character that is none. -/
theorem numeral_append (h : Digits ds) (rest : List (BitVec 8)) (hrest : ∀ c ∈ rest.head?, isDigit c = false) :
    numeral (ds ++ rest) = some ⟨false, decimal ds, rest⟩ := by
  obtain ⟨c, cs, rfl⟩ := List.exists_cons_of_ne_nil h.ne_nil
  have hc := h.isDigit_of_mem c List.mem_cons_self
  have hskip : (c :: cs ++ rest).dropWhile isSpace = c :: cs ++ rest := by
    rw [List.cons_append, List.dropWhile_cons_of_neg (by simp [isSpace_of_isDigit hc])]
  have hsign : sign (c :: cs ++ rest) = (false, c :: cs ++ rest) := sign_of_isDigit hc
  have hend : rest.takeWhile isDigit = [] ∧ rest.dropWhile isDigit = rest := by
    cases rest with
    | nil => exact ⟨rfl, rfl⟩
    | cons x rest => simp [hrest x rfl]
  have htake : (c :: cs ++ rest).takeWhile isDigit = c :: cs := by
    rw [List.takeWhile_append_of_pos h.isDigit_of_mem, hend.1, List.append_nil]
  have hdrop : (c :: cs ++ rest).dropWhile isDigit = rest := by
    rw [List.dropWhile_append_of_pos h.isDigit_of_mem, hend.2]
  simp only [numeral, hskip, hsign, htake, hdrop]
  rfl

/-- A number that fits an `int` is what `atoi` makes of its digits. -/
theorem atoi_of_digits (h : Digits ds) (hfits : decimal ds ≤ 0x7fffffff) : atoi ds = decimal ds := by
  have hnum : numeral ds = some ⟨false, decimal ds, []⟩ := by
    have := numeral_append h [] nofun
    rwa [List.append_nil] at this
  have hlong : (⟨false, decimal ds, []⟩ : Numeral).toLong = decimal ds := by
    simp only [Numeral.toLong, Bool.false_eq_true, if_false]
    exact if_pos (by omega)
  simp only [atoi, hnum, hlong, BitVec.toInt_ofInt]
  exact Int.bmod_eq_of_le (by omega) (by omega)

/-- A number that fits an `unsigned` is what `%u` makes of its digits. -/
theorem scanUnsigned_append (h : Digits ds) (hfits : decimal ds ≤ 0xffffffff) (rest : List (BitVec 8))
    (hrest : ∀ c ∈ rest.head?, isDigit c = false) :
    scanUnsigned (ds ++ rest) = some (BitVec.ofNat 32 (decimal ds), rest) := by
  have hulong : (⟨false, decimal ds, rest⟩ : Numeral).toUnsignedLong = BitVec.ofNat 64 (decimal ds) := by
    simp only [Numeral.toUnsignedLong, Bool.false_eq_true, if_false]
    rw [if_pos (by omega), BitVec.ofInt_natCast]
  rw [scanUnsigned, numeral_append h rest hrest, Option.map_some, hulong, BitVec.setWidth_ofNat_of_le (by decide)]

/-- The value of digits is that of the list of their values. -/
theorem decimal_map_digitChar {l : List ℕ} (h : ∀ d ∈ l, d < 10) :
    decimal (l.reverse.map digitChar) = Nat.ofDigits 10 l := by
  rw [decimal, List.foldl_map, List.foldl_reverse]
  induction l with
  | nil => rfl
  | cons d l ih =>
    rw [List.foldr_cons, ih fun x hx => h x (List.mem_cons_of_mem d hx), Nat.ofDigits_cons]
    have hd := h d List.mem_cons_self
    simp only [digitChar, BitVec.toNat_ofNat]
    omega

/-- What is printed is read back. -/
@[simp] theorem decimal_formatUnsigned (n : ℕ) : decimal (formatUnsigned n) = n := by
  unfold formatUnsigned
  split
  · next h => rw [h]; rfl
  · rw [decimal_map_digitChar fun d hd => Nat.digits_lt_base (by decide) hd, Nat.ofDigits_digits]

/-- What is printed is digits. -/
theorem digits_formatUnsigned (n : ℕ) : Digits (formatUnsigned n) := by
  unfold formatUnsigned
  split
  · exact ⟨nofun, by decide⟩
  · next h =>
    refine ⟨by simpa using Nat.digits_ne_nil_iff_ne_zero.mpr h, fun c hc => ?_⟩
    obtain ⟨d, hd, rfl⟩ := List.mem_map.mp hc
    have hlt := Nat.digits_lt_base (by decide) (List.mem_reverse.mp hd)
    rw [isDigit_iff, digitChar, BitVec.toNat_ofNat]
    omega

/-- A number below `10 ^ k` takes at most `k` digits. -/
theorem length_formatUnsigned_le {n k : ℕ} (hk : 0 < k) (h : n < 10 ^ k) : (formatUnsigned n).length ≤ k := by
  unfold formatUnsigned
  split
  · exact hk
  · rw [List.length_map, List.length_reverse]
    exact (Nat.digits_length_le_iff (by decide) n).mpr h

end

/-! ### Hexadecimal octets -/

section

variable {a b : BitVec 8}

/-- A hexadecimal digit is no white space, no sign and no `x`. -/
theorem isXDigit_cases (h : isXDigit a = true) :
    isSpace a = false ∧ a ≠ 0x2d#8 ∧ a ≠ 0x2b#8 ∧ a ≠ 0x78#8 ∧ a ≠ 0x58#8 := by
  revert a
  decide

/-- The value of a digit is one of sixteen, and the digit printed for it is the digit in lower case. -/
theorem hexChar_hexValue (h : isXDigit a = true) : hexValue a < 16 ∧ hexChar (hexValue a) = toLower a := by
  revert a
  decide

/-- A digit that is printed reads as its number, and is in lower case. -/
theorem hexValue_hexChar {d : ℕ} (h : d < 16) :
    isXDigit (hexChar d) = true ∧ hexValue (hexChar d) = d ∧ toLower (hexChar d) = hexChar d := by
  revert d
  decide

/-- The conversion fails where the characters it looks at do not begin with a digit, or are a bare `0x`. -/
theorem scanHex2_ne_none_iff_window {strict0x : Bool} {s w : List (BitVec 8)}
    (hw : (sign ((s.dropWhile isSpace).take 2)).2 = w) :
    scanHex2 strict0x s ≠ none ↔ (∃ c rest, w = c :: rest ∧ isXDigit c = true) ∧
      ¬ (strict0x = true ∧ (w = [0x30#8, 0x78#8] ∨ w = [0x30#8, 0x58#8])) := by
  have hdigits : (w.takeWhile isXDigit).isEmpty = false ↔ ∃ c rest, w = c :: rest ∧ isXDigit c = true := by
    cases w with
    | nil => simp
    | cons c rest => cases hc : isXDigit c <;> simp [hc]
  simp only [scanHex2, hw]
  rw [← hdigits]
  cases (w.takeWhile isXDigit).isEmpty <;> simp

/-- **A pair is read** exactly where there is a number. -/
theorem scanHex2_ne_none {strict0x : Bool} {s : List (BitVec 8)} : scanHex2 strict0x s ≠ none ↔ HasHex2 strict0x s := by
  unfold HasHex2
  cases hs : s.dropWhile isSpace with
  | nil =>
    rw [scanHex2_ne_none_iff_window (w := []) (by rw [hs]; rfl)]
    simp
  | cons c rest =>
    by_cases hsign : c = 0x2d#8 ∨ c = 0x2b#8
    · -- behind a sign one character is left, which is no bare 0x
      have hnot : isXDigit c = false := by rcases hsign with rfl | rfl <;> decide
      rw [scanHex2_ne_none_iff_window (w := rest.take 1) (by rw [hs]; rcases hsign with rfl | rfl <;> rfl)]
      cases rest <;> simp [hsign, hnot]
    · have hunsigned : sign ((c :: rest).take 2) = (false, c :: rest.take 1) := by
        rw [not_or] at hsign
        rw [List.take_succ_cons, sign, if_neg hsign.1, if_neg hsign.2]
      rw [scanHex2_ne_none_iff_window (w := c :: rest.take 1) (by rw [hs, hunsigned])]
      cases rest with
      | nil => simp
      | cons d rest => simp [hsign, imp_and]

/-- Two digits are read as their octet. -/
theorem scanHex2_pair (strict0x : Bool) (rest : List (BitVec 8)) (ha : isXDigit a = true) (hb : isXDigit b = true) :
    scanHex2 strict0x (a :: b :: rest) = some (BitVec.ofNat 32 (16 * hexValue a + hexValue b)) := by
  obtain ⟨hspace, hminus, hplus, -, -⟩ := isXDigit_cases ha
  obtain ⟨-, -, -, hx, hX⟩ := isXDigit_cases hb
  have hwindow : ((a :: b :: rest).dropWhile isSpace).take 2 = [a, b] := by simp [hspace]
  have hsign : sign [a, b] = (false, [a, b]) := by rw [sign, if_neg hminus, if_neg hplus]
  have hdigits : [a, b].takeWhile isXDigit = [a, b] := by simp [ha, hb]
  have hbare : ([a, b] == [0x30#8, 0x78#8] || [a, b] == [0x30#8, 0x58#8]) = false := by simp [hx, hX]
  have hvalue : hexadecimal [a, b] = 16 * hexValue a + hexValue b := by simp [hexadecimal]
  simp only [scanHex2, hwindow, hsign, hdigits, hbare, hvalue, Bool.and_false, Bool.false_eq_true, if_false,
    List.isEmpty_cons, BitVec.ofInt_natCast]

/-- The octet of two digits is printed as they are, in lower case. -/
theorem formatHex2_pair (ha : isXDigit a = true) (hb : isXDigit b = true) :
    formatHex2 (BitVec.ofNat 8 (16 * hexValue a + hexValue b)) = [toLower a, toLower b] := by
  obtain ⟨ha16, hlowa⟩ := hexChar_hexValue ha
  obtain ⟨hb16, hlowb⟩ := hexChar_hexValue hb
  have hnat : (BitVec.ofNat 8 (16 * hexValue a + hexValue b)).toNat = 16 * hexValue a + hexValue b := by
    rw [BitVec.toNat_ofNat]; omega
  have hdiv : (16 * hexValue a + hexValue b) / 16 = hexValue a := by omega
  have hmod : (16 * hexValue a + hexValue b) % 16 = hexValue b := by omega
  rw [formatHex2, hnat, hdiv, hmod, hlowa, hlowb]

/-- What is printed for an octet is digits in lower case. -/
theorem isXDigit_of_mem_formatHex2 {k c : BitVec 8} (h : c ∈ formatHex2 k) : isXDigit c = true ∧ toLower c = c := by
  have hdigit : ∃ d < 16, c = hexChar d := by
    rcases List.mem_pair.mp h with rfl | rfl
    · exact ⟨_, by omega, rfl⟩
    · exact ⟨_, Nat.mod_lt _ (by decide), rfl⟩
  obtain ⟨d, hd, rfl⟩ := hdigit
  obtain ⟨hx, -, hlow⟩ := hexValue_hexChar hd
  exact ⟨hx, hlow⟩

/-- An octet that is printed is read back. -/
theorem scanHex2_formatHex2 (strict0x : Bool) (k : BitVec 8) (rest : List (BitVec 8)) :
    scanHex2 strict0x (formatHex2 k ++ rest) = some (k.setWidth 32) := by
  have hhi : k.toNat / 16 < 16 := by omega
  have hlo : k.toNat % 16 < 16 := Nat.mod_lt _ (by decide)
  obtain ⟨hxhi, hvhi, -⟩ := hexValue_hexChar hhi
  obtain ⟨hxlo, hvlo, -⟩ := hexValue_hexChar hlo
  rw [formatHex2, List.cons_append, List.cons_append, List.nil_append, scanHex2_pair strict0x rest hxhi hxlo, hvhi,
    hvlo, Nat.div_add_mod]
  congr 1
  exact BitVec.eq_of_toNat_eq (by simp)

end

example : scanHex2 true (ofText " -a") = some 0xfffffff6 ∧ scanHex2 true (ofText "1g") = some 1 := by decide

example : formatUnsigned 0 = ofText "0" ∧ formatUnsigned 255 = ofText "255" := by decide

end CString
