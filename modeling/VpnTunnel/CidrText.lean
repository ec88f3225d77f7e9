import VpnTunnel.Peer

/-!
# Ranges in text

The ranges of a peer come as text, "10.0.0.0/24" or "10.0.0.2/32". This module asks which texts
`vpn_cidr_parse` takes, and what it makes of them.

## The grammar

A range in text (`CidrText`) is an address, four decimal numbers up to 255 with dots between them, with or
without a slash and a decimal number up to 32 behind it, and nothing else. Leading zeros are let through.

## The argument

The parser looks for a slash, and asks that 1 to 31 characters stand in front of it and that `atoi` makes a
number from 0 to 32 of what follows. It asks nothing of the address: `vpn_ip_parse` gives 0 for what is none,
and 0 is an address. So without a slash every text is taken, and with one every text for which `atoi` finds
no number at all, as `atoi` then says 0 and the range is the whole of IPv4.

## What is proved

* `cidr_grammar_iff` — on which texts the parser keeps to the grammar.
* `malformed_cidr_accepted` — a text that is no range and becomes the whole of IPv4.
* `vpnIpParse_dotted` — four numbers are read as the address they stand for.
* `cidr_text_semantics` — what a range that is written as it should be matches, and that an address that was
  printed is read back.
-/

namespace VpnTunnel

open CString

/-- A decimal number up to a bound: digits and nothing else. -/
structure NumberText (bound : ℕ) (t : List (BitVec 8)) : Prop where
  /-- It is written in digits. -/
  digits : Digits t
  /-- It is no more than the bound. -/
  le : decimal t ≤ bound

/-- An address in text. -/
def AddressText (t : List (BitVec 8)) : Prop := ∃ a b c d, NumberText 255 a ∧ NumberText 255 b ∧ NumberText 255 c ∧
  NumberText 255 d ∧ t = dotted a b c d

/-- A range in text. -/
def CidrText (t : List (BitVec 8)) : Prop :=
  AddressText t ∨ ∃ u p, AddressText u ∧ NumberText 32 p ∧ t = u ++ 0x2f#8 :: p

/-- What the parser should do on a text: accept it exactly if it is a range in text, and otherwise return `-EINVAL`,
also when it is called for a peer that has room, which then stays as it was. -/
structure CidrGrammarAt (β : Type) (s : List (BitVec 8)) : Prop where
  /-- It is parsed exactly if it is a range. -/
  accepts : (∃ cidr, vpnCidrParse s = .ok cidr) ↔ CidrText s
  /-- Otherwise it is invalid. -/
  refuses : ¬ CidrText s → vpnCidrParse s = .error .einval
  /-- So it is for a peer. -/
  registers : ∀ p : Peer β, p.allowedIps.length < 64 → ((peerAddAllowedIp p s).2 = .ok () ↔ CidrText s) ∧
    (¬ CidrText s → peerAddAllowedIp p s = (p, .error .einval))

/-! ### What is accepted -/

section

variable {s : List (BitVec 8)}

/-- An address in text is digits and dots. -/
theorem AddressText.mem (h : AddressText s) {c : BitVec 8} (hc : c ∈ s) : isDigit c = true ∨ c = 0x2e#8 := by
  obtain ⟨a, b, c', d, ha, hb, hc', hd, rfl⟩ := h
  simp only [dotted, List.mem_append, List.mem_cons] at hc
  rcases hc with hc | hc | hc | hc | hc | hc | hc
  · exact .inl (ha.digits.isDigit_of_mem c hc)
  · exact .inr hc
  · exact .inl (hb.digits.isDigit_of_mem c hc)
  · exact .inr hc
  · exact .inl (hc'.digits.isDigit_of_mem c hc)
  · exact .inr hc
  · exact .inl (hd.digits.isDigit_of_mem c hc)

/-- A range in text is digits, dots and slashes. -/
theorem CidrText.mem (h : CidrText s) {c : BitVec 8} (hc : c ∈ s) : isDigit c = true ∨ c = 0x2e#8 ∨ c = 0x2f#8 := by
  rcases h with h | ⟨u, p, hu, hp, rfl⟩
  · exact (h.mem hc).imp_right .inl
  · rcases List.mem_append.mp hc with hc | hc
    · exact (hu.mem hc).imp_right .inl
    · rcases List.mem_cons.mp hc with hc | hc
      · exact .inr (.inr hc)
      · exact .inl (hp.digits.isDigit_of_mem c hc)

/-- There is no slash in an address. -/
theorem AddressText.slash_not_mem (h : AddressText s) : 0x2f#8 ∉ s := by
  intro hmem
  rcases h.mem hmem with hdigit | hdot
  · exact absurd hdigit (by decide)
  · exact absurd hdot (by decide)

theorem AddressText.length_pos (h : AddressText s) : 0 < s.length := by
  obtain ⟨a, b, c, d, -, -, -, -, rfl⟩ := h
  simp [dotted]

/-- The slash of a range has something in front of it and a prefix length behind it. -/
theorem CidrText.slash (h : CidrText s) {len : ℕ} (hlen : strchr s 0x2f#8 = some len) :
    0 < len ∧ 0 ≤ atoi (s.drop (len + 1)) ∧ atoi (s.drop (len + 1)) ≤ 32 := by
  rcases h with h | ⟨u, p, hu, hp, rfl⟩
  · rw [strchr_eq_none.mpr h.slash_not_mem] at hlen
    cases hlen
  · rw [strchr_append hu.slash_not_mem] at hlen
    cases hlen
    have hdrop : (u ++ 0x2f#8 :: p).drop (u.length + 1) = p := by simp
    have hle := hp.le
    rw [hdrop, atoi_of_digits hp.digits (by omega)]
    exact ⟨hu.length_pos, by omega, by omega⟩

/-- The texts that are parsed: those whose slash, if there is one, stands at 1 to 31 in front of what `atoi` takes for
a prefix length. -/
def CidrTaken (s : List (BitVec 8)) : Prop := ∀ len, strchr s 0x2f#8 = some len →
  (0 < len ∧ len < 32) ∧ 0 ≤ atoi (s.drop (len + 1)) ∧ atoi (s.drop (len + 1)) ≤ 32

/-- **What is accepted**, and with which code the rest is refused. -/
theorem vpnCidrParse_cases (s : List (BitVec 8)) :
    (CidrTaken s ∧ ∃ cidr, vpnCidrParse s = .ok cidr) ∨ (¬ CidrTaken s ∧ vpnCidrParse s = .error .einval) := by
  unfold CidrTaken vpnCidrParse cidrParts
  cases strchr s 0x2f#8 with
  | none => exact .inl ⟨nofun, _, rfl⟩
  | some len =>
    simp only [Option.some.injEq, forall_eq']
    by_cases hlen : len = 0 ∨ len ≥ 32
    · rw [if_pos hlen]
      exact .inr ⟨by omega, rfl⟩
    · rw [if_neg hlen]
      by_cases hrange : atoi (s.drop (len + 1)) < 0 ∨ atoi (s.drop (len + 1)) > 32
      · exact .inr ⟨by omega, if_pos hrange⟩
      · exact .inl ⟨by omega, _, if_neg hrange⟩

/-- A peer with room is given the range that is parsed, or is left as it was. -/
theorem peerAddAllowedIp_of_room {β : Type} {p : Peer β} (hroom : p.allowedIps.length < 64) :
    ((peerAddAllowedIp p s).2 = .ok () ↔ ∃ cidr, vpnCidrParse s = .ok cidr) ∧
      (∀ rc, vpnCidrParse s = .error rc → peerAddAllowedIp p s = (p, .error rc)) := by
  rw [peerAddAllowedIp, dif_neg (Nat.not_le.mpr hroom)]
  cases vpnCidrParse s with
  | error rc => simp
  | ok cidr => simp

/-- The parser keeps to the grammar on a text when the texts it takes agree with the grammar there. -/
theorem cidrGrammarAt_iff (β : Type) (s : List (BitVec 8)) : CidrGrammarAt β s ↔ (CidrTaken s ↔ CidrText s) := by
  have haccepts : (∃ cidr, vpnCidrParse s = .ok cidr) ↔ CidrTaken s := by
    rcases vpnCidrParse_cases s with ⟨htaken, hok⟩ | ⟨hno, herr⟩
    · exact ⟨fun _ => htaken, fun _ => hok⟩
    · simp [hno, herr]
  constructor
  · intro h
    rw [← haccepts, h.accepts]
  · intro h
    have hrefuses : ¬ CidrText s → vpnCidrParse s = .error .einval := by
      intro hno
      rcases vpnCidrParse_cases s with ⟨htaken, -⟩ | ⟨-, herr⟩
      · exact absurd (h.mp htaken) hno
      · exact herr
    refine ⟨haccepts.trans h, hrefuses, fun p hroom => ?_⟩
    obtain ⟨hok, herr⟩ := peerAddAllowedIp_of_room (s := s) hroom
    exact ⟨hok.trans (haccepts.trans h), fun hno => herr _ (hrefuses hno)⟩

end

/-- **The parser keeps to the grammar** on a range whose address has at most 31 characters if a slash follows, and on
a text that is no range and has a slash with nothing or more than 31 characters in front of it, or with something
behind it that `atoi` reads as a number below 0 or above 32. On every other text it does not. -/
theorem cidr_grammar_iff (β : Type) (s : List (BitVec 8)) : CidrGrammarAt β s ↔
    (CidrText s ∧ ∀ len, strchr s 0x2f#8 = some len → len < 32) ∨
    (¬ CidrText s ∧ ∃ len, strchr s 0x2f#8 = some len ∧
      (len = 0 ∨ 32 ≤ len ∨ atoi (s.drop (len + 1)) < 0 ∨ 32 < atoi (s.drop (len + 1)))) := by
  rw [cidrGrammarAt_iff, CidrTaken]
  by_cases htext : CidrText s
  · simp only [htext, iff_true, true_and, not_true, false_and, or_false]
    constructor
    · exact fun h len hlen => (h len hlen).1.2
    · intro h len hlen
      obtain ⟨hpos, hrange⟩ := htext.slash hlen
      exact ⟨⟨hpos, h len hlen⟩, hrange⟩
  · simp only [htext, iff_false, false_and, not_false_eq_true, true_and, false_or, not_forall]
    refine exists_congr fun len => ?_
    rw [exists_prop]
    refine and_congr_right fun _ => ?_
    omega

/-- **A text that is no range becomes one**: a misspelt prefix length is read as 0, so that the range has every
address, and a text without a slash is taken for an address, 0.0.0.0. -/
theorem malformed_cidr_accepted :
    (¬ CidrText (ofText "10.0.0.2/x") ∧ vpnCidrParse (ofText "10.0.0.2/x") = .ok ⟨0, 0, 0⟩ ∧
      ∀ ip, vpnCidrMatch ⟨0, 0, 0⟩ ip = true) ∧
    ¬ CidrText (ofText "abc") ∧ vpnCidrParse (ofText "abc") = .ok ⟨0, 0xffffffff, 32⟩ := by
  have hx : ¬ CidrText (ofText "10.0.0.2/x") := fun h => absurd (h.mem (c := 0x78#8) (by decide)) (by decide)
  have ha : ¬ CidrText (ofText "abc") := fun h => absurd (h.mem (c := 0x61#8) (by decide)) (by decide)
  refine ⟨⟨hx, by decide, fun ip => ?_⟩, ha, by decide⟩
  rw [vpnCidrMatch, beq_iff_eq]
  exact BitVec.and_zero

/-! ### What a range matches -/

/-- A number that is followed by a dot is scanned up to the dot. -/
theorem NumberText.scanUnsigned_dot {t rest : List (BitVec 8)} (h : NumberText 255 t) :
    scanUnsigned (t ++ 0x2e#8 :: rest) = some (BitVec.ofNat 32 (decimal t), 0x2e#8 :: rest) := by
  have hle := h.le
  refine scanUnsigned_append h.digits (by omega) _ fun c hc => ?_
  cases hc
  rfl

/-- **Four numbers are read as the address they stand for.** -/
theorem vpnIpParse_dotted {a b c d : List (BitVec 8)} (ha : NumberText 255 a) (hb : NumberText 255 b)
    (hc : NumberText 255 c) (hd : NumberText 255 d) : vpnIpParse (dotted a b c d) =
      BitVec.ofNat 32 (decimal a) <<< 24 ||| BitVec.ofNat 32 (decimal b) <<< 16 |||
        BitVec.ofNat 32 (decimal c) <<< 8 ||| BitVec.ofNat 32 (decimal d) := by
  have hlast : scanUnsigned d = some (BitVec.ofNat 32 (decimal d), []) := by
    have hle := hd.le
    have := scanUnsigned_append hd.digits (by omega) [] nofun
    rwa [List.append_nil] at this
  have hsmall {t : List (BitVec 8)} (ht : NumberText 255 t) : ¬ BitVec.ofNat 32 (decimal t) > 255 := by
    have hle := ht.le
    rw [gt_iff_lt, BitVec.lt_def, BitVec.toNat_ofNat, Nat.mod_eq_of_lt (by omega)]
    exact Nat.not_lt.mpr hle
  simp only [vpnIpParse, dotted, ha.scanUnsigned_dot, hb.scanUnsigned_dot, hc.scanUnsigned_dot, hlast, scanChar,
    if_true, Option.bind_eq_bind, Option.bind_some, Option.pure_def]
  rw [if_neg]
  rintro (h | h | h | h)
  · exact hsmall ha h
  · exact hsmall hb h
  · exact hsmall hc h
  · exact hsmall hd h

/-- A number that fits an octet, printed. -/
theorem numberText_formatUnsigned {bound n : ℕ} (h : n ≤ bound) : NumberText bound (formatUnsigned n) :=
  ⟨digits_formatUnsigned n, by rwa [decimal_formatUnsigned]⟩

/-- The address `a.b.c.d`, printed. -/
def addressText (a b c d : BitVec 8) : List (BitVec 8) :=
  dotted (formatUnsigned a.toNat) (formatUnsigned b.toNat) (formatUnsigned c.toNat) (formatUnsigned d.toNat)

theorem numberText_octet (a : BitVec 8) : NumberText 255 (formatUnsigned a.toNat) :=
  numberText_formatUnsigned (by omega)

theorem addressText_isAddressText (a b c d : BitVec 8) : AddressText (addressText a b c d) :=
  ⟨_, _, _, _, numberText_octet a, numberText_octet b, numberText_octet c, numberText_octet d, rfl⟩

/-- It takes at most 15 characters. -/
theorem length_addressText_le (a b c d : BitVec 8) : (addressText a b c d).length ≤ 15 := by
  have hoctet (x : BitVec 8) : (formatUnsigned x.toNat).length ≤ 3 := length_formatUnsigned_le (by decide) (by omega)
  have ha := hoctet a
  have hb := hoctet b
  have hc := hoctet c
  have hd := hoctet d
  simp only [addressText, dotted, List.length_append, List.length_cons]
  omega

/-- Four octets in a word, the first one on top. -/
theorem octets_eq_append (a b c d : BitVec 8) : a.setWidth 32 <<< 24 ||| b.setWidth 32 <<< 16 |||
    c.setWidth 32 <<< 8 ||| d.setWidth 32 = (a ++ b ++ c ++ d : BitVec 32) := by
  apply BitVec.eq_of_getLsbD_eq
  intro k hk
  simp only [BitVec.getLsbD_or, BitVec.getLsbD_shiftLeft, BitVec.getLsbD_setWidth, BitVec.getLsbD_append]
  by_cases h8 : k < 8
  · grind
  · by_cases h16 : k < 16
    · grind
    · grind

/-- The octets of such a word. -/
theorem extract_octets (a b c d : BitVec 8) :
    (a ++ b ++ c ++ d).extractLsb' 24 8 = a ∧ (a ++ b ++ c ++ d).extractLsb' 16 8 = b ∧
      (a ++ b ++ c ++ d).extractLsb' 8 8 = c ∧ (a ++ b ++ c ++ d).extractLsb' 0 8 = d := by
  have hskip (n : ℕ) {m : ℕ} (x : BitVec m) (y : BitVec 8) : (x ++ y).extractLsb' (n + 8) 8 = x.extractLsb' n 8 :=
    BitVec.extractLsb'_append_eq_of_le (Nat.le_add_left 8 n)
  refine ⟨?_, ?_, ?_, BitVec.extractLsb'_append_eq_right⟩
  · rw [hskip 16, hskip 8, BitVec.extractLsb'_append_eq_left]
  · rw [hskip 8, hskip 0, BitVec.extractLsb'_append_eq_right]
  · rw [hskip 0, BitVec.extractLsb'_append_eq_right]

/-- A printed address is read back. -/
theorem vpnIpParse_addressText (a b c d : BitVec 8) : vpnIpParse (addressText a b c d) = a ++ b ++ c ++ d := by
  have hoctet (x : BitVec 8) : BitVec.ofNat 32 (decimal (formatUnsigned x.toNat)) = x.setWidth 32 := by
    rw [decimal_formatUnsigned, BitVec.ofNat_toNat]
  rw [addressText,
    vpnIpParse_dotted (numberText_octet a) (numberText_octet b) (numberText_octet c) (numberText_octet d), hoctet,
    hoctet, hoctet, hoctet, octets_eq_append]

/-- Every address is four octets, and is printed as these. -/
theorem exists_octets (x : BitVec 32) : ∃ a b c d : BitVec 8, x = a ++ b ++ c ++ d ∧
    ∀ bufLen, 16 ≤ bufLen → vpnIpToString x bufLen = .ok (addressText a b c d) := by
  have hoctet (n : ℕ) : (x >>> n &&& 0xff#32).toNat = (x.extractLsb' n 8).toNat := by
    rw [BitVec.toNat_and, BitVec.toNat_ushiftRight, BitVec.extractLsb'_toNat]
    exact Nat.and_two_pow_sub_one_eq_mod _ 8
  have hlow : (x &&& 0xff#32).toNat = (x.extractLsb' 0 8).toNat := hoctet 0
  refine ⟨x.extractLsb' 24 8, x.extractLsb' 16 8, x.extractLsb' 8 8, x.extractLsb' 0 8, ?_, fun bufLen hbuf => ?_⟩
  · rw [← octets_eq_append]
    apply BitVec.eq_of_getLsbD_eq
    intro k hk
    simp only [BitVec.getLsbD_or, BitVec.getLsbD_shiftLeft, BitVec.getLsbD_setWidth, BitVec.getLsbD_extractLsb']
    grind
  · have hlen := length_addressText_le (x.extractLsb' 24 8) (x.extractLsb' 16 8) (x.extractLsb' 8 8) (x.extractLsb' 0 8)
    unfold addressText at hlen ⊢
    rw [vpnIpToString, if_neg (Nat.not_lt.mpr hbuf), hoctet 24, hoctet 16, hoctet 8, hlow]
    exact if_neg (by omega)

/-- A range as it should be written is parsed to its address under its mask. -/
theorem vpnCidrParse_addressText (a b c d : BitVec 8) {p : ℕ} (hp : p ≤ 32) :
    vpnCidrParse (addressText a b c d ++ 0x2f#8 :: formatUnsigned p) =
      .ok ⟨(a ++ b ++ c ++ d) &&& cidrMask p, cidrMask p, p⟩ := by
  have haddr := addressText_isAddressText a b c d
  have hpos := haddr.length_pos
  have hlen := length_addressText_le a b c d
  have hatoi : atoi (formatUnsigned p) = p := by
    rw [atoi_of_digits (digits_formatUnsigned p) (by rw [decimal_formatUnsigned]; omega), decimal_formatUnsigned]
  refine vpnCidrParse_eq_ok.mpr ⟨addressText a b c d, p, ?_, by omega, by omega, ?_⟩
  · simp only [cidrParts, strchr_append haddr.slash_not_mem]
    rw [if_neg (by omega), List.take_left, ← List.drop_drop, List.drop_left, List.drop_one, List.tail_cons, hatoi]
  · rw [vpnIpParse_addressText, Int.toNat_natCast]

/-- Without a prefix length it is parsed as with 32. -/
theorem vpnCidrParse_addressText_host (a b c d : BitVec 8) :
    vpnCidrParse (addressText a b c d) = vpnCidrParse (addressText a b c d ++ 0x2f#8 :: formatUnsigned 32) := by
  have haddr := addressText_isAddressText a b c d
  have hlen := length_addressText_le a b c d
  rw [vpnCidrParse_addressText a b c d (Nat.le_refl 32)]
  refine vpnCidrParse_eq_ok.mpr ⟨addressText a b c d, 32, ?_, by decide, by decide, ?_⟩
  · simp only [cidrParts, strchr_eq_none.mpr haddr.slash_not_mem]
    rw [List.take_of_length_le (by omega)]
  · rw [vpnIpParse_addressText]
    rfl

/-- **Ranges and addresses in text mean what they say.** The range `a.b.c.d/p` matches the addresses that have its first
`p` bits, `a.b.c.d` is the range `a.b.c.d/32`, and an address that was printed is read back. -/
theorem cidr_text_semantics (a b c d : BitVec 8) (p : Fin 33) :
    (∃ cidr, vpnCidrParse (addressText a b c d ++ 0x2f#8 :: formatUnsigned p) = .ok cidr ∧
      ∀ x, vpnCidrMatch cidr x = true ↔ ∀ k < (p : ℕ), x.getMsbD k = (a ++ b ++ c ++ d).getMsbD k) ∧
    vpnCidrParse (addressText a b c d) = vpnCidrParse (addressText a b c d ++ 0x2f#8 :: formatUnsigned 32) ∧
    ∀ (x : BitVec 32) (bufLen : ℕ), 16 ≤ bufLen →
      ∃ text, vpnIpToString x bufLen = .ok text ∧ vpnIpParse text = x := by
  have hp : (p : ℕ) ≤ 32 := Nat.le_of_lt_succ p.isLt
  refine ⟨⟨_, vpnCidrParse_addressText a b c d hp, fun x => ?_⟩, vpnCidrParse_addressText_host a b c d, ?_⟩
  · rw [vpnCidrMatch, beq_iff_eq]
    exact and_cidrMask_eq_iff hp x _
  · intro x bufLen hbuf
    obtain ⟨a, b, c, d, hx, hprint⟩ := exists_octets x
    exact ⟨_, hprint bufLen hbuf, by rw [vpnIpParse_addressText, hx]⟩

end VpnTunnel
