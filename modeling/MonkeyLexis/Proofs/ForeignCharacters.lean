import MonkeyLexis.Proofs.LineTokens
import MonkeyLexis.Proofs.Records

/-!
# Characters foreign to the language

A character is foreign if it is no blank, no letter, no digit and no operator
character. Words, numerals and operators have none of these, and an illegal token
is one. So the illegal tokens of a text are its foreign characters, one by one and in
order, and neither cutting the text into lines nor listing end tokens makes a
difference.
-/

namespace MonkeyLexis

open Alphabet

namespace Alphabet

def operatorChars : Text := "=!+-/*<>,;()\x7b\x7d"

/-- A character that no part of a program is made of. -/
def isForeign (c : Char) : Bool := !(isBlank c || isWordChar c || operatorChars.contains c)

theorem isForeign_iff {c : Char} :
    isForeign c ↔ ¬ isBlank c ∧ ¬ isLetter c ∧ ¬ isDigit c ∧ c ∉ operatorChars := by
  simp [isForeign, isWordChar, and_assoc]

theorem isForeign_eq_false_of_isBlank {c : Char} (h : isBlank c) : isForeign c = false := by
  simp [isForeign, h]

theorem isForeign_eq_false_of_isWordChar {c : Char} (h : isWordChar c) : isForeign c = false := by
  simp [isForeign, h]

theorem filter_isForeign_eq_nil {t : Text} (h : ∀ c ∈ t, isForeign c = false) :
    t.filter isForeign = [] := by
  apply List.filter_eq_nil_iff.mpr
  intro c hc
  simp [h c hc]

end Alphabet

namespace Operator

theorem mem_operatorChars_of_mem_spelling {o : Operator} {c : Char} (h : c ∈ o.spelling) :
    c ∈ operatorChars := by
  have hall : o.spelling.all operatorChars.contains := by
    cases o <;> rfl
  exact List.contains_iff_mem.mp (List.all_eq_true.mp hall c h)

theorem mem_operatorChars_iff {c : Char} : c ∈ operatorChars ↔ ∃ o : Operator, o.spelling = [c] := by
  constructor
  · intro h
    have hall : operatorChars.all fun c => (ofSpelling? [c]).isSome := rfl
    obtain ⟨o, ho⟩ := Option.isSome_iff_exists.mp (List.all_eq_true.mp hall c h)
    exact ⟨o, (ofSpelling?_eq_some_iff.mp ho).symm⟩
  · rintro ⟨o, ho⟩
    apply mem_operatorChars_of_mem_spelling
    rw [ho]
    exact List.mem_singleton.mpr rfl

end Operator

namespace Token

def foreign (c : Char) : Token := ⟨.illegal, [c]⟩

def isIllegal (t : Token) : Bool := t.kind == .illegal

theorem isIllegal_word (w : Text) : (word w).isIllegal = false := by
  unfold isIllegal word Kind.ofWord
  cases Keyword.ofWord? w <;> rfl

theorem isProper_of_isIllegal {t : Token} (h : t.isIllegal) : t.isProper := by
  simp_all [isIllegal, isProper]

/-- Only an illegal token has a foreign character, and it has nothing else. -/
theorem WellFormed.map_foreign_literal {t : Token} (h : t.WellFormed) :
    (t.literal.filter isForeign).map foreign = [t].filter isIllegal := by
  rcases h.shape with ⟨w, hw, rfl⟩ | ⟨n, hn, rfl⟩ | ⟨o, rfl⟩ | ⟨c, hb, hl, hd, ho, rfl⟩
  · have hnone : w.filter isForeign = [] :=
      filter_isForeign_eq_nil fun c hc => isForeign_eq_false_of_isWordChar (hw.all c hc)
    rw [List.filter_singleton, isIllegal_word]
    exact congrArg (List.map foreign) hnone
  · have hword : ∀ c ∈ n, isWordChar c := by
      intro c hc
      simp [isWordChar, hn.2 c hc]
    exact congrArg (List.map foreign)
      (filter_isForeign_eq_nil fun c hc => isForeign_eq_false_of_isWordChar (hword c hc))
  · have hoperator : ∀ c ∈ o.spelling, isForeign c = false := by
      intro c hc
      simp [isForeign, Operator.mem_operatorChars_of_mem_spelling hc]
    exact congrArg (List.map foreign) (filter_isForeign_eq_nil hoperator)
  · have hc : isForeign c = true := by
      refine isForeign_iff.mpr ⟨hb, hl, hd, ?_⟩
      intro hmem
      obtain ⟨o, hspelling⟩ := Operator.mem_operatorChars_iff.mp hmem
      exact ho o hspelling
    rw [List.filter_singleton, hc]
    rfl

end Token

/-- The illegal tokens of a text are its foreign characters. -/
theorem filter_isIllegal_lexemes (t : Text) :
    (lexemes t).filter Token.isIllegal = (t.filter isForeign).map Token.foreign := by
  have hblank {w : Text} (hw : IsBlankText w) : w.filter isForeign = [] :=
    filter_isForeign_eq_nil fun c hc => isForeign_eq_false_of_isBlank (hw c hc)
  induction t using Text.tokenInduction with
  | blank w hw =>
    rw [lexemes_eq_nil_iff.mpr hw, hblank hw]
    rfl
  | token w t r hw ht hr ih =>
    calc
      (lexemes (w ++ (t.literal ++ r))).filter Token.isIllegal
        = [t].filter Token.isIllegal ++ (lexemes r).filter Token.isIllegal := by
          rw [lexemes_token hw ht hr, ← List.filter_append]
          rfl
      _ = ((t.literal ++ r).filter isForeign).map Token.foreign := by
          rw [ih, ← ht.map_foreign_literal, ← List.map_append, ← List.filter_append]
      _ = ((w ++ (t.literal ++ r)).filter isForeign).map Token.foreign := by
          rw [List.filter_append w, hblank hw, List.nil_append]

namespace Listing

variable {t : Text} {pieces : List Text}

theorem filter_isIllegal_entries (h : IsCutOf t pieces) (showEnd : Bool) :
    ((entries showEnd pieces).map Entry.token).filter Token.isIllegal =
      (t.filter isForeign).map Token.foreign := by
  have hproper := filter_isProper_entries showEnd pieces
  rw [h.flatMap_lexemes] at hproper
  rw [← filter_isIllegal_lexemes, ← hproper, List.filter_filter]
  apply List.filter_congr
  intro token _
  cases hillegal : token.isIllegal with
  | false => rfl
  | true => exact (Token.isProper_of_isIllegal hillegal).symm

theorem illegalCount_entries (h : IsCutOf t pieces) (showEnd : Bool) :
    illegalCount (entries showEnd pieces) = t.countP isForeign := by
  have hlength := congrArg List.length (filter_isIllegal_entries h showEnd)
  rw [List.length_map, ← List.countP_eq_length_filter, ← List.countP_eq_length_filter,
    List.countP_map] at hlength
  exact hlength

/-- The records of illegal tokens, as the name of the kind tells them. -/
def illegalRecords (listing : Text) : List Fields :=
  (records listing).filter (·.kind == Kind.illegal.name)

theorem illegalRecords_written (es : List Entry) :
    illegalRecords (written es) = (es.filter (·.token.isIllegal)).map Entry.fields := by
  unfold illegalRecords
  rw [records_written, List.filter_map]
  apply congrArg
  apply List.filter_congr
  intro e _
  have hname : e.token.kind.name = Kind.illegal.name ↔ e.token.kind = .illegal :=
    ⟨Kind.name_injective, congrArg Kind.name⟩
  rw [Bool.eq_iff_iff]
  simpa [Entry.fields, Token.isIllegal] using hname

theorem map_literal_illegalRecords (h : IsCutOf t pieces) (showEnd : Bool) :
    (illegalRecords (written (entries showEnd pieces))).map Fields.literal =
      (t.filter isForeign).map fun c => Quoted.encode [c] := by
  have htokens := congrArg (List.map fun token => Quoted.encode token.literal)
    (filter_isIllegal_entries h showEnd)
  rw [List.filter_map, List.map_map, List.map_map] at htokens
  rw [illegalRecords_written, List.map_map]
  exact htokens

end Listing
end MonkeyLexis
