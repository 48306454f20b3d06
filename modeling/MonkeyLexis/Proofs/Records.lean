import Mathlib.Data.List.TakeWhile
import MonkeyLexis.Listing
import MonkeyLexis.Proofs.Lines

/-!
# Records

A record has three fields, told by its first colon and the first tab behind it: the
number of a line, a kind and a quoted literal. Quoted texts and names of kinds
consist of printable characters, so that a record keeps to one line and the lines of
a listing are its records. Records of earlier lines have smaller numbers.
-/

namespace MonkeyLexis

open Printable

/-- All characters of the text stand for themselves when they are shown. -/
def IsPrintableText (t : Text) : Prop := ∀ c ∈ t, isPrintable c

instance (t : Text) : Decidable (IsPrintableText t) := List.decidableBAll _ t

theorem IsPrintableText.append {s t : Text} (hs : IsPrintableText s) (ht : IsPrintableText t) :
    IsPrintableText (s ++ t) :=
  List.forall_mem_append.mpr ⟨hs, ht⟩

theorem IsPrintableText.not_mem {t : Text} (h : IsPrintableText t) {c : Char}
    (hc : isPrintable c = false) : c ∉ t := by
  intro hmem
  rw [h c hmem] at hc
  exact absurd hc (by decide)

theorem isPrintableText_hex (width n : Nat) : IsPrintableText (Numeral.hex width n) := by
  have hdigit : ∀ d < 16, isPrintable (Nat.digitChar d) := by decide
  induction width generalizing n with
  | zero => exact List.forall_mem_nil _
  | succ width ih =>
    rw [Numeral.hex]
    refine (ih (n / 16)).append ?_
    intro c hc
    rw [List.mem_singleton.mp hc]
    exact hdigit _ (Nat.mod_lt n (by decide))

namespace Quoted

theorem isPrintable_quote (t : Text) : isPrintable (quote t) := by
  rcases quote_eq t with h | h <;> rw [h] <;> decide

theorem isPrintableText_escapedCode (n : Nat) : IsPrintableText (escapedCode n) := by
  unfold escapedCode
  split
  · exact IsPrintableText.append (s := ['\\', 'x']) (by decide) (isPrintableText_hex 2 n)
  · split
    · exact IsPrintableText.append (s := ['\\', 'u']) (by decide) (isPrintableText_hex 4 n)
    · exact IsPrintableText.append (s := ['\\', 'U']) (by decide) (isPrintableText_hex 8 n)

theorem isPrintableText_escaped {q : Char} (hq : isPrintable q) (c : Char) :
    IsPrintableText (escaped q c) := by
  unfold escaped
  split
  · next h =>
    have hc : isPrintable c := by
      rcases h with rfl | rfl
      · exact hq
      · decide
    exact List.forall_mem_cons.mpr ⟨by decide, List.forall_mem_singleton.mpr hc⟩
  iterate 3
    split
    · decide
  split
  · next h => exact List.forall_mem_singleton.mpr h
  · exact isPrintableText_escapedCode c.toNat

theorem isPrintableText_encode (t : Text) : IsPrintableText (encode t) := by
  have hquote := isPrintable_quote t
  refine List.forall_mem_cons.mpr ⟨hquote, IsPrintableText.append ?_ ?_⟩
  · intro c hc
    obtain ⟨d, _, hd⟩ := List.mem_flatMap.mp hc
    exact isPrintableText_escaped hquote d c hd
  · exact List.forall_mem_singleton.mpr hquote

end Quoted

theorem Numeral.not_mem_decimal {c : Char} (hc : c.isDigit = false) (n : Nat) : c ∉ decimal n := by
  intro hmem
  have hdigit := Nat.isDigit_of_mem_toDigits (by decide) (by decide) hmem
  rw [hc] at hdigit
  exact absurd hdigit (by decide)

theorem Numeral.isPrintableText_decimal (n : Nat) : IsPrintableText (decimal n) := by
  intro c hc
  have hdigit := Char.isDigit_iff_toNat.mp (Nat.isDigit_of_mem_toDigits (by decide) (by decide) hc)
  have h0 : '0'.toNat = 48 := rfl
  have h9 : '9'.toNat = 57 := rfl
  exact isPrintable_of_ascii (by omega) (by omega)

theorem Numeral.ofDigitChars_decimal (n : Nat) : Nat.ofDigitChars 10 (decimal n) 0 = n :=
  Nat.ofDigitChars_ten_toDigits

theorem Kind.isPrintableText_name (k : Kind) : IsPrintableText k.name := by
  have h : ∀ k ∈ all, IsPrintableText k.name := by decide
  exact h k (mem_all k)

/-- What stands before the first mark and what stands after it. -/
def Text.cutAt (mark : Char) (t : Text) : Text × Text :=
  (t.takeWhile (· != mark), (t.dropWhile (· != mark)).tail)

theorem Text.cutAt_append_cons {mark : Char} {s : Text} (h : mark ∉ s) (t : Text) :
    cutAt mark (s ++ mark :: t) = (s, t) := by
  have hs := bne_of_not_mem h
  rw [cutAt, List.takeWhile_append_of_pos hs, List.dropWhile_append_of_pos hs]
  simp

structure Fields where
  number : Nat
  kind : Text
  literal : Text
  deriving DecidableEq, Repr

def Fields.record (f : Fields) : Text :=
  Numeral.decimal f.number ++ ":" ++ f.kind ++ "\t" ++ f.literal ++ "\n"

def Fields.ofLine (line : Text) : Fields :=
  let (number, rest) := Text.cutAt ':' line
  let (kind, literal) := Text.cutAt '\t' rest
  ⟨Nat.ofDigitChars 10 number 0, kind, literal⟩

/-- The fields without the number, as a token is shown on a line of its own. -/
def Fields.displayLine (f : Fields) : Text := f.kind ++ "(" ++ f.literal ++ ")" ++ "\n"

namespace Entry

def shown (e : Entry) : Text :=
  Numeral.decimal e.line ++
    ':' :: (e.token.kind.name ++ '\t' :: Quoted.encode e.token.literal)

theorem record_eq (e : Entry) : e.record = e.shown ++ ['\n'] := by
  simp [record, shown]

def fields (e : Entry) : Fields :=
  ⟨e.line, e.token.kind.name, Quoted.encode e.token.literal⟩

theorem ofLine_shown (e : Entry) : Fields.ofLine e.shown = e.fields := by
  have hdecimal : ':' ∉ Numeral.decimal e.line := Numeral.not_mem_decimal (by decide) e.line
  have hname : '\t' ∉ e.token.kind.name := e.token.kind.isPrintableText_name.not_mem (by decide)
  simp only [Fields.ofLine, shown, Text.cutAt_append_cons hdecimal, Text.cutAt_append_cons hname,
    Numeral.ofDigitChars_decimal, fields]

theorem not_mem_shown {c : Char} (hc : isPrintable c = false) (htab : c ≠ '\t') (e : Entry) :
    c ∉ e.shown := by
  have hdecimal := (Numeral.isPrintableText_decimal e.line).not_mem hc
  have hname := e.token.kind.isPrintableText_name.not_mem hc
  have hliteral := (Quoted.isPrintableText_encode e.token.literal).not_mem hc
  have hcolon : c ≠ ':' := by
    rintro rfl
    exact absurd hc (by decide)
  simp only [shown, List.mem_append, List.mem_cons, not_or]
  exact ⟨hdecimal, hcolon, hname, htab, hliteral⟩

end Entry

namespace Listing

theorem written_eq (es : List Entry) : written es = (es.map Entry.shown).flatMap (· ++ ['\n']) := by
  have hrecord : Entry.record = fun e => e.shown ++ ['\n'] := funext Entry.record_eq
  rw [written, hrecord, List.flatMap_map]

theorem lines_written (es : List Entry) : Text.lines (written es) = es.map Entry.shown := by
  rw [written_eq]
  apply Text.lines_flatMap_feed
  intro row hrow
  obtain ⟨e, _, rfl⟩ := List.mem_map.mp hrow
  exact ⟨e.not_mem_shown (by decide) (by decide), e.not_mem_shown (by decide) (by decide)⟩

def records (listing : Text) : List Fields := (Text.lines listing).map Fields.ofLine

theorem records_written (es : List Entry) : records (written es) = es.map Entry.fields := by
  rw [records, lines_written, List.map_map]
  apply List.map_congr_left
  intro e _
  exact e.ofLine_shown

theorem flatMap_record_records (es : List Entry) :
    (records (written es)).flatMap Fields.record = written es := by
  rw [records_written, List.flatMap_map]
  rfl

theorem first_le_line {showEnd : Bool} {first : Nat} {lines : List Text} {e : Entry}
    (h : e ∈ entriesFrom showEnd first lines) : first ≤ e.line := by
  induction lines generalizing first with
  | nil => exact absurd h List.not_mem_nil
  | cons line lines ih =>
    rcases List.mem_append.mp h with h | h
    · obtain ⟨token, _, rfl⟩ := List.mem_map.mp h
      exact Nat.le_refl first
    · exact Nat.le_of_succ_le (ih h)

/-- The entries with small numbers are those of the first lines. -/
theorem filter_line_lt_entriesFrom (showEnd : Bool) (first k : Nat) (lines : List Text) :
    (entriesFrom showEnd first lines).filter (fun e => e.line < k + first) =
      entriesFrom showEnd first (lines.take k) := by
  induction lines generalizing first k with
  | nil => simp [entriesFrom]
  | cons line lines ih =>
    cases k with
    | zero =>
      rw [List.take_zero, entriesFrom, List.filter_eq_nil_iff]
      intro e he
      have hle := first_le_line he
      simpa using hle
    | succ k =>
      have hline : ∀ e ∈ (lineTokens showEnd line).map (Entry.mk first),
          decide (e.line < k + 1 + first) = true := by
        intro e he
        obtain ⟨token, _, rfl⟩ := List.mem_map.mp he
        simp
      have hlater := ih (first + 1) k
      rw [Nat.add_left_comm, Nat.add_comm first] at hlater
      rw [entriesFrom, List.filter_append, List.filter_eq_self.mpr hline, List.take_succ_cons,
        entriesFrom]
      exact congrArg _ hlater

theorem filter_number_lt_records (showEnd : Bool) (k : Nat) (lines : List Text) :
    (records (written (entries showEnd lines))).filter (fun r => r.number < k + 1) =
      records (written (entries showEnd (lines.take k))) := by
  rw [records_written, records_written, List.filter_map]
  exact congrArg _ (filter_line_lt_entriesFrom showEnd 1 k lines)

end Listing
end MonkeyLexis
