import Mathlib.Data.List.TakeWhile
import MonkeyLexis.Text.Alphabet
import MonkeyLexis.Token.Keyword
import MonkeyLexis.Token.Operator

/-!
# Lexemes

Words, numerals and operators are the lexemes of the language. The first character
tells to which of the three classes a lexeme belongs. Of the operators that begin a
text the longest is read; only two are longer than one character, and each of these
extends a single one by an equals sign.
-/

namespace MonkeyLexis

open Alphabet

/-- A letter, then letters and digits. -/
def IsWord (l : Text) : Prop := ∃ c rest, l = c :: rest ∧ isLetter c ∧ ∀ d ∈ rest, isWordChar d

def IsNumeral (l : Text) : Prop := l ≠ [] ∧ ∀ d ∈ l, isDigit d

/-- The texts that programs are made of. -/
inductive IsLexeme : Text → Prop
  | word {l : Text} : IsWord l → IsLexeme l
  | numeral {l : Text} : IsNumeral l → IsLexeme l
  | operator (o : Operator) : IsLexeme o.spelling

theorem takeWhile_append_eq_left_iff {p : Char → Bool} {l r : Text} (h : ∀ d ∈ l, p d) :
    (l ++ r).takeWhile p = l ↔ ∀ c ∈ r.head?, ¬ p c := by
  rw [List.takeWhile_append_of_pos h]
  cases r with
  | nil => simp
  | cons c r => cases hc : p c <;> simp [hc]

theorem length_le_of_prefix_append {p : Char → Bool} {l m r : Text} (hl : ∀ d ∈ l, p d)
    (hr : ∀ c ∈ r.head?, ¬ p c) (hm : m <+: l ++ r) (hall : ∀ d ∈ m, p d) :
    m.length ≤ l.length := by
  obtain ⟨s, hs⟩ := hm
  have hl := (takeWhile_append_eq_left_iff hl).mpr hr
  rw [← hs, List.takeWhile_append_of_pos hall] at hl
  rw [← hl, List.length_append]
  exact Nat.le_add_right _ _

theorem IsWord.all {l : Text} (h : IsWord l) : ∀ d ∈ l, isWordChar d := by
  obtain ⟨c, rest, rfl, hc, hrest⟩ := h
  intro d hd
  rcases List.mem_cons.mp hd with rfl | hd
  · simp [isWordChar, hc]
  · exact hrest d hd

theorem isWord_takeWhile {c : Char} (h : isLetter c) (rest : Text) :
    IsWord (c :: rest.takeWhile isWordChar) :=
  ⟨c, _, rfl, h, fun _ hd => List.mem_takeWhile_imp hd⟩

theorem isNumeral_takeWhile {c : Char} (h : isDigit c) (rest : Text) :
    IsNumeral (c :: rest.takeWhile isDigit) := by
  refine ⟨List.cons_ne_nil _ _, ?_⟩
  intro d hd
  rcases List.mem_cons.mp hd with rfl | hd
  · exact h
  · exact List.mem_takeWhile_imp hd

theorem isWord_keyword (k : Keyword) : IsWord k.word := by
  cases k <;> exact ⟨_, _, rfl, rfl, List.all_eq_true.mp rfl⟩

namespace Operator

theorem class_of_mem_spelling {o : Operator} {c : Char} (h : c ∈ o.spelling) :
    isBlank c = false ∧ isLetter c = false ∧ isDigit c = false := by
  have hall : o.spelling.all fun c => !isBlank c && !isLetter c && !isDigit c := by
    cases o <;> rfl
  simpa [and_assoc] using List.all_eq_true.mp hall c h

theorem eq_pair_of_length {p : Operator} (h : 1 < p.spelling.length) :
    p = .equal ∨ p = .notEqual := by
  revert h
  cases p <;> decide

theorem exists_single (o : Operator) :
    ∃ c rest, o.spelling = c :: rest ∧ ∃ p : Operator, p.spelling = [c] := by
  by_cases h : 1 < o.spelling.length
  · rcases eq_pair_of_length h with rfl | rfl
    · exact ⟨_, _, rfl, .assign, rfl⟩
    · exact ⟨_, _, rfl, .bang, rfl⟩
  · have hpos := List.length_pos_iff.mpr o.spelling_ne_nil
    obtain ⟨c, hc⟩ := List.length_eq_one_iff.mp (show o.spelling.length = 1 by omega)
    exact ⟨c, [], hc, o, hc⟩

/-- An operator that extends another one is a pair that ends with an equals sign. -/
theorem extension_cases {o p : Operator} (h : o.spelling <+: p.spelling)
    (hlt : o.spelling.length < p.spelling.length) :
    (o = .assign ∧ p = .equal) ∨ (o = .bang ∧ p = .notEqual) := by
  have hpos := List.length_pos_iff.mpr o.spelling_ne_nil
  rcases eq_pair_of_length (p := p) (by omega) with rfl | rfl
  · revert h hlt
    cases o <;> decide
  · revert h hlt
    cases o <;> decide

theorem leading?_of_prefix {t : Text} {p : Operator} (h : p.spelling <+: t) :
    ∃ o, leading? t = some o ∧ p.spelling.length ≤ o.spelling.length := by
  have htake := List.prefix_iff_eq_take.mp h
  by_cases hp : 1 < p.spelling.length
  · have hlen : p.spelling.length = 2 := by
      have := p.length_spelling_le
      omega
    rw [hlen] at htake
    exact ⟨p, by simp [leading?, ← htake], le_rfl⟩
  · have hlen : p.spelling.length = 1 := by
      have := List.length_pos_iff.mpr p.spelling_ne_nil
      omega
    rw [hlen] at htake
    cases h2 : ofSpelling? (t.take 2) with
    | none => exact ⟨p, by simp [leading?, h2, ← htake], le_rfl⟩
    | some o =>
      have hpos := List.length_pos_iff.mpr o.spelling_ne_nil
      exact ⟨o, by simp [leading?, h2], by omega⟩

theorem spelling_prefix_of_leading? {t : Text} {o : Operator} (h : leading? t = some o) :
    o.spelling <+: t := by
  rw [spelling_of_leading? h]
  exact List.take_prefix _ _

theorem leading?_eq_none_iff {t : Text} : leading? t = none ↔ ∀ o : Operator, ¬ o.spelling <+: t := by
  constructor
  · intro h p hp
    obtain ⟨o, ho, _⟩ := leading?_of_prefix hp
    exact Option.some_ne_none o (ho.symm.trans h)
  · intro h
    cases ht : leading? t with
    | none => rfl
    | some o => exact absurd (spelling_prefix_of_leading? ht) (h o)

/-- The operator at the start of a text is the longest that begins it. -/
theorem leading?_eq_some_iff {t : Text} {o : Operator} :
    leading? t = some o ↔
      o.spelling <+: t ∧ ∀ p : Operator, p.spelling <+: t → p.spelling.length ≤ o.spelling.length := by
  constructor
  · intro h
    refine ⟨spelling_prefix_of_leading? h, ?_⟩
    intro p hp
    obtain ⟨q, hq, hle⟩ := leading?_of_prefix hp
    cases h.symm.trans hq
    exact hle
  · rintro ⟨ho, hmax⟩
    obtain ⟨q, hq, hle⟩ := leading?_of_prefix ho
    have hqt := spelling_prefix_of_leading? hq
    have hlen : q.spelling.length = o.spelling.length := le_antisymm (hmax q hqt) hle
    have heq : q.spelling = o.spelling :=
      (List.prefix_of_prefix_length_le hqt ho hlen.le).eq_of_length hlen
    rw [hq, spelling_injective heq]

end Operator

theorem IsLexeme.exists_cons {m : Text} (h : IsLexeme m) : ∃ c l, m = c :: l := by
  cases h with
  | word h =>
    obtain ⟨c, l, rfl, _⟩ := h
    exact ⟨c, l, rfl⟩
  | numeral h => exact List.exists_cons_of_ne_nil h.1
  | operator o => exact List.exists_cons_of_ne_nil o.spelling_ne_nil

theorem IsLexeme.isWord {c : Char} {l : Text} (h : IsLexeme (c :: l)) (hc : isLetter c) :
    IsWord (c :: l) := by
  generalize hm : c :: l = m at h
  cases h with
  | word h => exact h
  | numeral h =>
    have hd := h.2 c (by simp [← hm])
    rw [isLetter_eq_false_of_isDigit hd] at hc
    exact absurd hc Bool.false_ne_true
  | operator o =>
    rw [(Operator.class_of_mem_spelling (o := o) (c := c) (by simp [← hm])).2.1] at hc
    exact absurd hc Bool.false_ne_true

theorem IsLexeme.isNumeral {c : Char} {l : Text} (h : IsLexeme (c :: l)) (hc : isDigit c) :
    IsNumeral (c :: l) := by
  generalize hm : c :: l = m at h
  cases h with
  | word h =>
    obtain ⟨d, rest, rfl, hd, _⟩ := h
    rw [← (List.cons.inj hm).1, isLetter_eq_false_of_isDigit hc] at hd
    exact absurd hd Bool.false_ne_true
  | numeral h => exact h
  | operator o =>
    rw [(Operator.class_of_mem_spelling (o := o) (c := c) (by simp [← hm])).2.2] at hc
    exact absurd hc Bool.false_ne_true

theorem IsLexeme.exists_operator {c : Char} {l : Text} (h : IsLexeme (c :: l))
    (hl : ¬ isLetter c) (hd : ¬ isDigit c) : ∃ o : Operator, o.spelling = c :: l := by
  generalize hm : c :: l = m at h
  cases h with
  | word h =>
    obtain ⟨d, rest, rfl, hd, _⟩ := h
    rw [← (List.cons.inj hm).1] at hd
    exact absurd hd hl
  | numeral h => exact absurd (h.2 c (by simp [← hm])) hd
  | operator o => exact ⟨o, rfl⟩

theorem IsLexeme.cons_of_prefix {m t : Text} {c : Char} (h : IsLexeme m) (hm : m <+: c :: t) :
    ∃ l, m = c :: l := by
  obtain ⟨d, l, rfl⟩ := h.exists_cons
  exact ⟨l, by rw [(List.cons_prefix_cons.mp hm).1]⟩

end MonkeyLexis
