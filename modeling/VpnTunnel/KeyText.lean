import VpnTunnel.Config
import VpnTunnel.Lib.CString
import VpnTunnel.Lib.Octets

/-!
# Keys in text

This module models the two functions of `src/config.c`: "Parse a 64-character hexadecimal string into a 32-byte
binary key" and "Format a 32-byte binary key into a 64-character null-terminated hex string".

## The model

`config_parse_key_hex` writes into the key as it goes, so that its model takes the key as it was before the
call and returns it as it is afterwards, next to the result. `config_key_to_hex` prints each octet and a NUL
into the buffer, two further each time; every write is shown to lie inside the 65 octets of the buffer.

## The argument

The length is the only thing the parser checks itself. Each pair is left to `sscanf`, and that reads a number of
at most two characters from there on, wherever it ends: it passes over white space, takes a sign, and is
content with one digit. A text of 64 hexadecimal digits has none of these, and is read pair by pair. So the
parser does what it says on such a text, and on every text it refuses.

## What is proved

* `configParseKeyHex_of_keyText`, `toList_configKeyToHex` — what the two functions do on 64 digits and on a key.
* `key_grammar_iff` — the parser keeps to its grammar exactly on texts of 64 digits and on those it refuses.
* `key_hex_round_trip` — a key that was printed is read back.
-/

namespace VpnTunnel

open Octets CString

/-- The loop of `config_parse_key_hex`, over the text and the octets of the key that are left: each octet is
overwritten when its pair has been read, and the first pair that does not read ends the loop. -/
def parseKeyHexLoop (strict0x : Bool) : List (BitVec 8) → List (BitVec 8) → List (BitVec 8) × Except Errno Unit
  | _, [] => ([], .ok ())
  | hexStr, k :: key =>
    match scanHex2 strict0x hexStr with
    | none => (k :: key, .error .einval)
    | some byteVal =>
      (byteVal.setWidth 8 :: (parseKeyHexLoop strict0x (hexStr.drop 2) key).1,
        (parseKeyHexLoop strict0x (hexStr.drop 2) key).2)

theorem length_parseKeyHexLoop (strict0x : Bool) (hexStr key : List (BitVec 8)) :
    (parseKeyHexLoop strict0x hexStr key).1.length = key.length := by
  induction key generalizing hexStr with
  | nil => rfl
  | cons k key ih =>
    rw [parseKeyHexLoop]
    cases scanHex2 strict0x hexStr with
    | none => rfl
    | some v => rw [List.length_cons, ih, List.length_cons]

/-- Parse a key, `config_parse_key_hex`: the key after the call, and what is returned. -/
def configParseKeyHex (strict0x : Bool) (hexStr : List (BitVec 8)) (key : Bytes (BitVec 8) 32) :
    Bytes (BitVec 8) 32 × Except Errno Unit :=
  if hexStr.length ≠ 64 then (key, .error .einval)
  else
    (⟨(parseKeyHexLoop strict0x hexStr key.toList).1, (length_parseKeyHexLoop _ _ _).trans key.toList_length⟩,
      (parseKeyHexLoop strict0x hexStr key.toList).2)

/-- The loop of `config_key_to_hex`, over the octets of the key that are left: each is printed at `off`, with the
NUL that `snprintf` writes behind it, and the next one two octets further. -/
def keyToHexLoop {n : ℕ} : (key : List (BitVec 8)) → (off : ℕ) → off + 2 * key.length < n → Bytes (BitVec 8) n →
    Bytes (BitVec 8) n
  | [], _, _, hexStr => hexStr
  | k :: key, off, h, hexStr =>
    keyToHexLoop key (off + 2) (by rw [List.length_cons] at h; omega)
      (store hexStr off (formatHex2 k ++ [0#8]) (by rw [List.length_cons] at h; simp only [formatHex2, List.cons_append,
        List.nil_append, List.length_cons, List.length_nil]; omega))

/-- Print a key, `config_key_to_hex`: the buffer after the call. It always returns 0. -/
def configKeyToHex (key : Bytes (BitVec 8) 32) (hexStr : Bytes (BitVec 8) 65) : Bytes (BitVec 8) 65 :=
  store (keyToHexLoop key.toList 0 (by rw [key.toList_length]; decide) hexStr) 64 [0#8] (by decide)

/-! ### Printing -/

theorem take_keyToHexLoop {n : ℕ} (key : List (BitVec 8)) (off : ℕ) (h : off + 2 * key.length < n)
    (buf : Bytes (BitVec 8) n) : (keyToHexLoop key off h buf).toList.take (off + 2 * key.length) =
      buf.toList.take off ++ key.flatMap formatHex2 := by
  induction key generalizing off buf with
  | nil => simp [keyToHexLoop]
  | cons k key ih =>
    rw [List.length_cons] at h
    have hoff : off ≤ buf.toList.length := by rw [buf.toList_length]; omega
    -- the NUL behind the pair lies past what is kept: the next pair overwrites it
    have hpair : (writeAt buf.toList off (formatHex2 k ++ [0#8])).take (off + 2) =
        buf.toList.take off ++ formatHex2 k :=
      take_writeAt (x := formatHex2 k) (y := [0#8]) hoff
    have hlen : off + 2 * (k :: key).length = off + 2 + 2 * key.length := by rw [List.length_cons]; omega
    rw [hlen, keyToHexLoop, ih, toList_store, hpair, List.flatMap_cons, List.append_assoc]

/-- **A key is printed as its pairs of digits and a NUL**, whatever was in the buffer. -/
theorem toList_configKeyToHex (key : Bytes (BitVec 8) 32) (buf : Bytes (BitVec 8) 65) :
    (configKeyToHex key buf).toList = key.toList.flatMap formatHex2 ++ [0#8] := by
  have hlen : 0 + 2 * key.toList.length = 64 := by rw [key.toList_length]
  have hfront := (congrArg (fun m => List.take m _) hlen).symm.trans
    (take_keyToHexLoop key.toList 0 (by rw [key.toList_length]; decide) buf)
  rw [configKeyToHex, toList_store, writeAt, hfront, List.drop_of_length_le (by simp), List.append_nil,
    List.take_zero, List.nil_append]

/-- What is printed for octets is two hexadecimal digits in lower case for each. -/
theorem flatMap_formatHex2 {n : ℕ} (octets : Bytes (BitVec 8) n) : (octets.toList.flatMap formatHex2).length = 2 * n ∧
    ∀ c ∈ octets.toList.flatMap formatHex2, isXDigit c = true ∧ toLower c = c := by
  constructor
  · have hpair : ∀ k ∈ octets.toList, (formatHex2 k).length = 2 := fun _ _ => rfl
    rw [List.length_flatMap, List.map_congr_left hpair, List.map_const', List.sum_replicate, octets.toList_length]
    exact Nat.mul_comm n 2
  · intro c hc
    obtain ⟨k, -, hk⟩ := List.mem_flatMap.mp hc
    exact isXDigit_of_mem_formatHex2 hk

/-- The string in the buffer is the digits. -/
theorem ofBuffer_configKeyToHex (key : Bytes (BitVec 8) 32) (buf : Bytes (BitVec 8) 65) :
    ofBuffer (configKeyToHex key buf).toList = key.toList.flatMap formatHex2 := by
  have hne : ∀ c ∈ key.toList.flatMap formatHex2, (c != 0#8) = true := by
    intro c hc
    have hx := ((flatMap_formatHex2 key).2 c hc).1
    rw [bne_iff_ne]
    rintro rfl
    exact absurd hx (by decide)
  rw [toList_configKeyToHex, ofBuffer, List.takeWhile_append_of_pos hne]
  simp

/-! ### Parsing -/

section

variable {strict0x : Bool}

/-- Reading succeeds when every pair reads. -/
theorem parseKeyHexLoop_eq_ok {hexStr key : List (BitVec 8)} : (parseKeyHexLoop strict0x hexStr key).2 = .ok () ↔
    ∀ i < key.length, scanHex2 strict0x (hexStr.drop (2 * i)) ≠ none := by
  induction key generalizing hexStr with
  | nil => simp [parseKeyHexLoop]
  | cons k key ih =>
    rw [parseKeyHexLoop]
    cases hscan : scanHex2 strict0x hexStr with
    | none =>
      simp only [reduceCtorEq, false_iff, not_forall]
      exact ⟨0, Nat.succ_pos _, fun h => h (by simpa using hscan)⟩
    | some v =>
      simp only [ih, List.drop_drop]
      constructor
      · intro h i hi
        cases i with
        | zero => simp [hscan]
        | succ i => exact (by omega : 2 + 2 * i = 2 * (i + 1)) ▸ h i (by simpa using hi)
      · intro h i hi
        exact (by omega : 2 + 2 * i = 2 * (i + 1)) ▸ h (i + 1) (by simpa using hi)

/-- Digits are read pair by pair, into a key that is printed as they are, in lower case. -/
theorem parseKeyHexLoop_of_digits {hexStr key : List (BitVec 8)} (hlen : hexStr.length = 2 * key.length)
    (hx : ∀ c ∈ hexStr, isXDigit c = true) :
    (parseKeyHexLoop strict0x hexStr key).2 = .ok () ∧
      (parseKeyHexLoop strict0x hexStr key).1.flatMap formatHex2 = hexStr.map toLower := by
  induction key generalizing hexStr with
  | nil =>
    rw [List.eq_nil_of_length_eq_zero hlen]
    exact ⟨rfl, rfl⟩
  | cons k key ih =>
    match hexStr, hlen, hx with
    | a :: b :: rest, hlen, hx =>
      rw [List.forall_mem_cons, List.forall_mem_cons] at hx
      obtain ⟨ha, hb, hrest⟩ := hx
      obtain ⟨hok, htext⟩ := ih (show rest.length = 2 * key.length by simpa [Nat.mul_add] using hlen) hrest
      have hcut : (BitVec.ofNat 32 (16 * hexValue a + hexValue b)).setWidth 8 =
          BitVec.ofNat 8 (16 * hexValue a + hexValue b) := BitVec.setWidth_ofNat_of_le (by decide) _
      simp only [parseKeyHexLoop, scanHex2_pair strict0x rest ha hb, List.drop_succ_cons, List.drop_zero, hok,
        List.flatMap_cons, htext, hcut, formatHex2_pair ha hb, true_and]
      rfl

/-- What was printed for a key is read back. -/
theorem parseKeyHexLoop_flatMap_formatHex2 {key old : List (BitVec 8)} (hlen : old.length = key.length) :
    parseKeyHexLoop strict0x (key.flatMap formatHex2) old = (key, .ok ()) := by
  induction key generalizing old with
  | nil =>
    rw [List.eq_nil_of_length_eq_zero hlen]
    rfl
  | cons k key ih =>
    obtain ⟨o, old, rfl⟩ := List.exists_cons_of_length_eq_add_one hlen
    have hdrop : (formatHex2 k ++ key.flatMap formatHex2).drop 2 = key.flatMap formatHex2 := rfl
    have hcut : (k.setWidth 32).setWidth 8 = k := by simp
    rw [List.flatMap_cons, parseKeyHexLoop, scanHex2_formatHex2]
    simp only [hdrop, ih (Nat.succ_inj.mp hlen), hcut]

/-- A key in text: 64 hexadecimal digits. -/
def KeyText (s : List (BitVec 8)) : Prop := s.length = 64 ∧ ∀ c ∈ s, isXDigit c = true

instance (s : List (BitVec 8)) : Decidable (KeyText s) := inferInstanceAs (Decidable (_ ∧ _))

/-- **The parser succeeds** when there are 64 characters and a number at every pair. -/
theorem configParseKeyHex_eq_ok {s : List (BitVec 8)} {key : Bytes (BitVec 8) 32} :
    (configParseKeyHex strict0x s key).2 = .ok () ↔
      s.length = 64 ∧ ∀ i < 32, HasHex2 strict0x (s.drop (2 * i)) := by
  rw [configParseKeyHex]
  split
  · next hlen => simp [hlen]
  · next hlen =>
    rw [parseKeyHexLoop_eq_ok, key.toList_length, and_iff_right (not_not.mp hlen)]
    simp only [scanHex2_ne_none]

/-- 64 digits are read, into a key that is printed as they are, in lower case. -/
theorem configParseKeyHex_of_keyText (strict0x : Bool) {s : List (BitVec 8)} (h : KeyText s) (key : Bytes (BitVec 8) 32)
    (buf : Bytes (BitVec 8) 65) :
    (configParseKeyHex strict0x s key).2 = .ok () ∧
      ofBuffer (configKeyToHex (configParseKeyHex strict0x s key).1 buf).toList = s.map toLower := by
  have hlen : s.length = 2 * key.toList.length := by rw [key.toList_length, h.1]
  rw [ofBuffer_configKeyToHex, configParseKeyHex, if_neg (not_not.mpr h.1)]
  exact parseKeyHexLoop_of_digits hlen h.2

end

/-- What the parser should do on a text: accept it exactly if it is 64 hexadecimal digits, and then print the
key as the text in lower case. -/
structure KeyGrammarAt (strict0x : Bool) (s : List (BitVec 8)) (key : Bytes (BitVec 8) 32) (buf : Bytes (BitVec 8) 65) :
    Prop where
  /-- It is accepted exactly if it is 64 digits. -/
  accepts : (configParseKeyHex strict0x s key).2 = .ok () ↔ KeyText s
  /-- The key that was read is printed as the text in lower case. -/
  prints : (configParseKeyHex strict0x s key).2 = .ok () →
    ofBuffer (configKeyToHex (configParseKeyHex strict0x s key).1 buf).toList = s.map toLower

/-- **The parser keeps to its grammar on 64 digits, and on a text that it refuses**, because of its length or a pair
at which no number stands; on no other. Two texts of 64 digits that give one key differ in the case of
letters only. -/
theorem key_grammar_iff (strict0x : Bool) (s : List (BitVec 8)) (key : Bytes (BitVec 8) 32)
    (buf : Bytes (BitVec 8) 65) :
    (KeyGrammarAt strict0x s key buf ↔
      KeyText s ∨ s.length ≠ 64 ∨ ∃ i < 32, ¬ HasHex2 strict0x (s.drop (2 * i))) ∧
    ∀ s', KeyText s → KeyText s' →
      (configParseKeyHex strict0x s key).1 = (configParseKeyHex strict0x s' key).1 →
        s.map toLower = s'.map toLower := by
  have hrefused : (configParseKeyHex strict0x s key).2 ≠ .ok () ↔
      s.length ≠ 64 ∨ ∃ i < 32, ¬ HasHex2 strict0x (s.drop (2 * i)) := by
    rw [Ne, configParseKeyHex_eq_ok, not_and_or]
    simp only [not_forall, exists_prop]
  constructor
  · rw [← hrefused]
    constructor
    · intro h
      by_cases htext : KeyText s
      · exact .inl htext
      · exact .inr fun hok => htext (h.accepts.mp hok)
    · rintro (htext | hno)
      · obtain ⟨hok, hprint⟩ := configParseKeyHex_of_keyText strict0x htext key buf
        exact ⟨⟨fun _ => htext, fun _ => hok⟩, fun _ => hprint⟩
      · refine ⟨⟨fun hok => absurd hok hno, fun htext => ?_⟩, fun hok => absurd hok hno⟩
        exact (configParseKeyHex_of_keyText strict0x htext key buf).1
  · intro s' hs hs' heq
    have hprint := (configParseKeyHex_of_keyText strict0x hs key buf).2
    rw [heq, (configParseKeyHex_of_keyText strict0x hs' key buf).2] at hprint
    exact hprint.symm

/-- **A text that is no key is accepted**: `1g`, 32 times over, is read as the key of `01`, 32 times over. -/
theorem malformed_key_accepted :
    ¬ KeyText (List.replicate 32 (ofText "1g")).flatten ∧
    ∀ strict0x, configParseKeyHex strict0x (List.replicate 32 (ofText "1g")).flatten (zeroBytes 32) =
        (List.Vector.replicate 32 1#8, .ok ()) ∧
      configParseKeyHex strict0x (List.replicate 32 (ofText "01")).flatten (zeroBytes 32) =
        (List.Vector.replicate 32 1#8, .ok ()) := by
  decide +kernel

/-- **A key that was printed is read back.** The buffer then holds 64 hexadecimal digits in lower case and a NUL,
whatever was in it, and reading them gives the key, whatever was in its place. -/
theorem key_hex_round_trip (strict0x : Bool) (key old : Bytes (BitVec 8) 32) (buf : Bytes (BitVec 8) 65) :
    (∃ digits, (configKeyToHex key buf).toList = digits ++ [0#8] ∧ digits.length = 64 ∧
      ∀ c ∈ digits, isXDigit c = true ∧ toLower c = c) ∧
    configParseKeyHex strict0x (ofBuffer (configKeyToHex key buf).toList) old = (key, .ok ()) := by
  obtain ⟨hlen, hdigits⟩ := flatMap_formatHex2 key
  refine ⟨⟨_, toList_configKeyToHex key buf, hlen, hdigits⟩, ?_⟩
  have hold : old.toList.length = key.toList.length := by rw [old.toList_length, key.toList_length]
  rw [ofBuffer_configKeyToHex, configParseKeyHex, if_neg (not_not.mpr hlen)]
  simp only [parseKeyHexLoop_flatMap_formatHex2 hold]
  exact Prod.ext (List.Vector.eq _ _ (List.Vector.toList_mk _ _)) rfl

end VpnTunnel
