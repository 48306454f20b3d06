import Mathlib.Algebra.Group.Nat.Defs
import MonkeyLexis.Text.Quoted

/-!
# Reading quoted texts

A quoted text is read character by character up to the quote that opened it. A
backslash announces an escape: one of the three letters for tab, line feed and
carriage return, a code point with the number of digits that its letter tells, or
the character behind the backslash itself. Reading inverts quoting, so a quoted text
has only one text behind it.
-/

namespace MonkeyLexis

namespace Numeral

def hexDigitValue (c : Char) : Nat :=
  if c.isDigit then c.toNat - '0'.toNat else c.toNat - 'a'.toNat + 10

def ofHex (digits : Text) : Nat := digits.foldl (fun n c => n * 16 + hexDigitValue c) 0

theorem hexDigitValue_digitChar {d : Nat} (h : d < 16) : hexDigitValue (Nat.digitChar d) = d := by
  revert d
  decide

theorem ofHex_hex {width n : Nat} (h : n < 16 ^ width) : ofHex (hex width n) = n := by
  induction width generalizing n with
  | zero =>
    have hn : n = 0 := by simpa using h
    rw [hn]
    rfl
  | succ width ih =>
    have hhead : ofHex (hex width (n / 16)) = n / 16 := by
      apply ih
      rw [Nat.pow_succ] at h
      omega
    have hlast : hexDigitValue (Nat.digitChar (n % 16)) = n % 16 :=
      hexDigitValue_digitChar (Nat.mod_lt n (by decide))
    unfold ofHex at *
    rw [hex, List.foldl_append, hhead, List.foldl_cons, List.foldl_nil, hlast]
    omega

end Numeral

namespace Quoted

open Numeral

/-- How many digits follow a letter that announces a code point. -/
def codeWidth? : Char → Option Nat
  | 'x' => some 2
  | 'u' => some 4
  | 'U' => some 8
  | _ => none

/-- The character that stands behind a backslash, and the text behind it. -/
def escape? : Text → Option (Char × Text)
  | [] => none
  | 't' :: rest => some ('\t', rest)
  | 'n' :: rest => some ('\n', rest)
  | 'r' :: rest => some ('\r', rest)
  | c :: rest =>
    match codeWidth? c with
    | none => some (c, rest)
    | some width => some (.ofNat (ofHex (rest.take width)), rest.drop width)

theorem length_le_of_escape? {t rest : Text} {c : Char} (h : escape? t = some (c, rest)) :
    rest.length ≤ t.length := by
  unfold escape? at h
  split at h
  · cases h
  iterate 3
    · cases h
      exact Nat.le_succ _
  · next d rest' _ _ _ =>
    split at h
    · cases h
      exact Nat.le_succ _
    · cases h
      simp only [List.length_drop, List.length_cons]
      omega

/-- The characters written in front of the quote `q`, which must be the last one. -/
def readUpTo (q : Char) : Text → Option Text
  | [] => none
  | c :: rest =>
    if c = q then if rest = [] then some [] else none
    else if c = '\\' then
      match _h : escape? rest with
      | none => none
      | some (d, later) => (readUpTo q later).map (d :: ·)
    else (readUpTo q rest).map (c :: ·)
termination_by t => t.length
decreasing_by
  · have hle := length_le_of_escape? _h
    simp only [List.length_cons]
    omega
  · simp

def decode? : Text → Option Text
  | [] => none
  | q :: rest => if q = '\x27' ∨ q = '"' then readUpTo q rest else none

variable {q c : Char} {rest : Text}

theorem readUpTo_quote (q : Char) : readUpTo q [q] = some [] := by
  simp [readUpTo]

theorem readUpTo_plain (hq : c ≠ q) (hb : c ≠ '\\') (rest : Text) :
    readUpTo q (c :: rest) = (readUpTo q rest).map (c :: ·) := by
  rw [readUpTo, if_neg hq, if_neg hb]

theorem readUpTo_escape (hq : '\\' ≠ q) {written later : Text}
    (h : escape? written = some (c, later)) :
    readUpTo q ('\\' :: written) = (readUpTo q later).map (c :: ·) := by
  rw [readUpTo, if_neg hq, if_pos rfl]
  split
  · next hn => simp [h] at hn
  · next hs =>
    rw [h] at hs
    cases hs
    rfl

theorem escape?_code {letter : Char} {width : Nat} (hw : codeWidth? letter = some width)
    (hc : c.toNat < 16 ^ width) (rest : Text) :
    escape? (letter :: (hex width c.toNat ++ rest)) = some (c, rest) := by
  have htake : (hex width c.toNat ++ rest).take width = hex width c.toNat :=
    List.take_left' (length_hex width c.toNat)
  have hdrop : (hex width c.toNat ++ rest).drop width = rest :=
    List.drop_left' (length_hex width c.toNat)
  rw [escape?, hw]
  · simp only [htake, hdrop, ofHex_hex hc, Char.ofNat_toNat]
  all_goals
    rintro rfl
    cases hw

theorem toNat_lt_of_char (c : Char) : c.toNat < 0x110000 := by
  have hv : c.toNat < 0xD800 ∨ 0xDFFF < c.toNat ∧ c.toNat < 0x110000 := c.valid
  omega

theorem readUpTo_escapedCode (hq : '\\' ≠ q) (c : Char) (rest : Text) :
    readUpTo q (escapedCode c.toNat ++ rest) = (readUpTo q rest).map (c :: ·) := by
  have hc := toNat_lt_of_char c
  unfold escapedCode
  split
  · next h => exact readUpTo_escape hq (escape?_code rfl h rest)
  · split
    · next h => exact readUpTo_escape hq (escape?_code rfl h rest)
    · exact readUpTo_escape hq (escape?_code rfl (by omega) rest)

/-- A written character is read as itself, whatever is written behind it. -/
theorem readUpTo_escaped (hq : q = '\x27' ∨ q = '"') (c : Char) (rest : Text) :
    readUpTo q (escaped q c ++ rest) = (readUpTo q rest).map (c :: ·) := by
  have hbackslash : '\\' ≠ q := by
    rcases hq with rfl | rfl <;> decide
  unfold escaped
  split
  · next h =>
    refine readUpTo_escape hbackslash ?_
    rcases h with rfl | rfl
    · rcases hq with rfl | rfl <;> rfl
    · rfl
  · next h =>
    obtain ⟨hcq, hcb⟩ := not_or.mp h
    split
    · next ht => exact readUpTo_escape hbackslash (by rw [ht]; rfl)
    split
    · next hn => exact readUpTo_escape hbackslash (by rw [hn]; rfl)
    split
    · next hr => exact readUpTo_escape hbackslash (by rw [hr]; rfl)
    split
    · exact readUpTo_plain hcq hcb rest
    · exact readUpTo_escapedCode hbackslash c rest

theorem readUpTo_flatMap_escaped (hq : q = '\x27' ∨ q = '"') (t : Text) :
    readUpTo q (t.flatMap (escaped q) ++ [q]) = some t := by
  induction t with
  | nil => exact readUpTo_quote q
  | cons c t ih =>
    rw [List.flatMap_cons, List.append_assoc, readUpTo_escaped hq, ih]
    rfl

theorem decode?_encode (t : Text) : decode? (encode t) = some t := by
  have hopen : decode? (encode t) = readUpTo (quote t) (t.flatMap (escaped (quote t)) ++ [quote t]) :=
    if_pos (quote_eq t)
  rw [hopen]
  exact readUpTo_flatMap_escaped (quote_eq t) t

theorem encode_injective {s t : Text} (h : encode s = encode t) : s = t := by
  have hread := congrArg decode? h
  rw [decode?_encode, decode?_encode] at hread
  exact Option.some.inj hread

example : decode? "'\\x1b\\'\\u2028\"'" = some "\x1b'\u2028\"".toList := by decide +kernel

end Quoted
end MonkeyLexis
