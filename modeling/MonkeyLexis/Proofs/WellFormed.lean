import MonkeyLexis.Proofs.Lexeme
import MonkeyLexis.Scan.Tokens

/-!
# Well-formed tokens

A token is well formed when its kind and its literal belong together. The token at
the start of a text is the well-formed one whose literal begins the text and is not
continued by the next character. So every text is a sequence of blanks and
well-formed tokens none of which runs into what follows.
-/

namespace MonkeyLexis

open Alphabet

namespace Kind

/-- The character would belong to a token of this kind that ends right before it. -/
def continuedBy : Kind → Char → Bool
  | .identifier, c | .keyword _, c => isWordChar c
  | .integer, c => isDigit c
  | .operator .assign, c | .operator .bang, c => c == '='
  | _, _ => false

/-- A text begins with a character that continues a token of this kind. -/
def RunsInto (k : Kind) (t : Text) : Prop := ∃ c ∈ t.head?, k.continuedBy c

instance (k : Kind) (t : Text) : Decidable (k.RunsInto t) :=
  decidable_of_iff (t.head?.any k.continuedBy) (by simp [RunsInto, Option.any_eq_true])

@[simp] theorem not_runsInto_nil (k : Kind) : ¬ k.RunsInto [] := by
  simp [RunsInto]

@[simp] theorem runsInto_cons (k : Kind) (c : Char) (t : Text) :
    k.RunsInto (c :: t) ↔ k.continuedBy c := by
  simp [RunsInto]

theorem runsInto_append {k : Kind} {r : Text} (h : r ≠ []) (t : Text) :
    k.RunsInto (r ++ t) ↔ k.RunsInto r := by
  obtain ⟨c, r, rfl⟩ := List.exists_cons_of_ne_nil h
  simp

theorem continuedBy_ofWord (w : Text) : (ofWord w).continuedBy = isWordChar := by
  unfold ofWord
  cases Keyword.ofWord? w <;> rfl

theorem not_continuedBy_of_isBlank {c : Char} (h : isBlank c) (k : Kind) : ¬ k.continuedBy c := by
  unfold continuedBy
  split
  · simp [isWordChar_eq_false_of_isBlank h]
  · simp [isWordChar_eq_false_of_isBlank h]
  · simp [isDigit_eq_false_of_isBlank h]
  · rcases isBlank_iff.mp h with rfl | rfl | rfl | rfl <;> decide
  · rcases isBlank_iff.mp h with rfl | rfl | rfl | rfl <;> decide
  · simp

end Kind

namespace Operator

theorem leading?_spelling_append_iff (o : Operator) (t : Text) :
    leading? (o.spelling ++ t) = some o ↔ ¬ (Kind.operator o).RunsInto t := by
  rw [leading?_eq_some_iff]
  constructor
  · rintro ⟨_, hmax⟩ ⟨c, hc, hco⟩
    obtain ⟨r, rfl⟩ := List.head?_eq_some_iff.mp hc
    cases o with
    | assign =>
      have hc : c = '=' := by simpa [Kind.continuedBy] using hco
      have hle := hmax .equal ⟨r, by rw [hc]; rfl⟩
      exact absurd hle (by decide)
    | bang =>
      have hc : c = '=' := by simpa [Kind.continuedBy] using hco
      have hle := hmax .notEqual ⟨r, by rw [hc]; rfl⟩
      exact absurd hle (by decide)
    | _ => simp [Kind.continuedBy] at hco
  · intro h
    refine ⟨List.prefix_append _ _, ?_⟩
    intro p hp
    -- a longer operator would be a pair, with its equals sign at the start of the text behind
    by_contra hlt
    have hlt : o.spelling.length < p.spelling.length := Nat.lt_of_not_le hlt
    have hop := List.prefix_of_prefix_length_le (List.prefix_append o.spelling t) hp hlt.le
    obtain ⟨r, hr⟩ := hp
    have hsecond := congrArg (fun u : Text => u.tail.head?) hr.symm
    apply h
    rcases extension_cases hop hlt with ⟨rfl, rfl⟩ | ⟨rfl, rfl⟩
    · exact ⟨'=', hsecond, rfl⟩
    · exact ⟨'=', hsecond, rfl⟩

end Operator

namespace Token

/-- Kind and literal belong together. What is illegal is a character of its own kind: no blank,
no letter, no digit and no operator. -/
inductive WellFormed : Token → Prop
  | identifier {l : Text} (hl : IsWord l) (hk : ∀ k : Keyword, l ≠ k.word) :
      WellFormed ⟨.identifier, l⟩
  | keyword (k : Keyword) : WellFormed ⟨.keyword k, k.word⟩
  | integer {l : Text} (hl : IsNumeral l) : WellFormed ⟨.integer, l⟩
  | operator (o : Operator) : WellFormed ⟨.operator o, o.spelling⟩
  | illegal {c : Char} (hb : ¬ isBlank c) (hl : ¬ isLetter c) (hd : ¬ isDigit c)
      (ho : ∀ o : Operator, o.spelling ≠ [c]) : WellFormed ⟨.illegal, [c]⟩

theorem wellFormed_word {w : Text} (h : IsWord w) : (word w).WellFormed := by
  cases hk : Keyword.ofWord? w with
  | none =>
    have hw : Kind.ofWord w = .identifier := by simp [Kind.ofWord, hk]
    rw [word, hw]
    exact .identifier h (Kind.ofWord_eq_identifier_iff.mp hw)
  | some k =>
    rw [Keyword.ofWord?_eq_some_iff.mp hk, word, Kind.ofWord_word]
    exact .keyword k

theorem WellFormed.shape {t : Token} (h : t.WellFormed) :
    (∃ w, IsWord w ∧ t = word w) ∨ (∃ l, IsNumeral l ∧ t = ⟨.integer, l⟩) ∨
      (∃ o : Operator, t = ⟨.operator o, o.spelling⟩) ∨
      ∃ c, ¬ isBlank c ∧ ¬ isLetter c ∧ ¬ isDigit c ∧ (∀ o : Operator, o.spelling ≠ [c]) ∧
        t = ⟨.illegal, [c]⟩ := by
  cases h with
  | identifier hl hk =>
    exact .inl ⟨_, hl, by rw [word, Kind.ofWord_eq_identifier_iff.mpr hk]⟩
  | keyword k => exact .inl ⟨_, isWord_keyword k, by rw [word, Kind.ofWord_word]⟩
  | integer hl => exact .inr (.inl ⟨_, hl, rfl⟩)
  | operator o => exact .inr (.inr (.inl ⟨o, rfl⟩))
  | illegal hb hl hd ho => exact .inr (.inr (.inr ⟨_, hb, hl, hd, ho, rfl⟩))

theorem WellFormed.literal_ne_nil {t : Token} (h : t.WellFormed) : t.literal ≠ [] := by
  rcases h.shape with ⟨w, ⟨c, l, rfl, _⟩, rfl⟩ | ⟨l, hl, rfl⟩ | ⟨o, rfl⟩ | ⟨c, _, _, _, _, rfl⟩
  · exact List.cons_ne_nil c l
  · exact hl.1
  · exact o.spelling_ne_nil
  · exact List.cons_ne_nil c []

theorem WellFormed.not_isBlank_of_mem {t : Token} (h : t.WellFormed) {c : Char}
    (hc : c ∈ t.literal) : ¬ isBlank c := by
  intro hb
  rcases h.shape with ⟨w, hw, rfl⟩ | ⟨l, hl, rfl⟩ | ⟨o, rfl⟩ | ⟨d, hd, _, _, _, rfl⟩
  · have hword := hw.all c hc
    rw [isWordChar_eq_false_of_isBlank hb] at hword
    exact Bool.false_ne_true hword
  · have hdigit := hl.2 c hc
    rw [isDigit_eq_false_of_isBlank hb] at hdigit
    exact Bool.false_ne_true hdigit
  · rw [(Operator.class_of_mem_spelling hc).1] at hb
    exact Bool.false_ne_true hb
  · rw [List.mem_singleton.mp hc] at hb
    exact hd hb

theorem WellFormed.exists_literal {t : Token} (h : t.WellFormed) :
    ∃ c l, t.literal = c :: l ∧ ¬ isBlank c := by
  obtain ⟨c, l, hcl⟩ := List.exists_cons_of_ne_nil h.literal_ne_nil
  exact ⟨c, l, hcl, h.not_isBlank_of_mem (by simp [hcl])⟩

theorem word_inj {v w : Text} : word v = word w ↔ v = w :=
  ⟨fun h => congrArg literal h, fun h => h ▸ rfl⟩

theorem leading_word_append_iff {c : Char} {l : Text} (h : IsWord (c :: l)) (r : Text) :
    leading c (l ++ r) = word (c :: l) ↔ ¬ (word (c :: l)).kind.RunsInto r := by
  obtain ⟨d, rest, hcons, hd, hrest⟩ := h
  obtain ⟨rfl, rfl⟩ := List.cons.inj hcons
  rw [leading_of_isLetter hd, word_inj, List.cons_inj_right, takeWhile_append_eq_left_iff hrest]
  simp [word, Kind.RunsInto, Kind.continuedBy_ofWord]

theorem leading_integer_append_iff {c : Char} {l : Text} (h : IsNumeral (c :: l)) (r : Text) :
    leading c (l ++ r) = ⟨.integer, c :: l⟩ ↔ ¬ Kind.integer.RunsInto r := by
  have hc : isDigit c := h.2 c (by simp)
  have hl : ∀ d ∈ l, isDigit d := fun d hd => h.2 d (List.mem_cons_of_mem c hd)
  rw [leading_of_isDigit hc, Token.mk.injEq, List.cons_inj_right, takeWhile_append_eq_left_iff hl]
  simp [Kind.RunsInto, Kind.continuedBy]

/-- Where neither a word nor a numeral begins, operators decide. -/
theorem leading_of_class {c : Char} (hl : isLetter c = false) (hd : isDigit c = false)
    (rest : Text) :
    leading c rest = ((Operator.leading? (c :: rest)).elim ⟨.illegal, [c]⟩
      fun o => ⟨.operator o, o.spelling⟩) := by
  unfold leading
  rw [if_neg (by simp [hl]), if_neg (by simp [hd])]
  cases Operator.leading? (c :: rest) <;> rfl

theorem leading_operator_append_iff {o : Operator} {c : Char} {l : Text} (h : o.spelling = c :: l)
    (r : Text) :
    leading c (l ++ r) = ⟨.operator o, c :: l⟩ ↔ ¬ (Kind.operator o).RunsInto r := by
  obtain ⟨_, hl, hd⟩ := Operator.class_of_mem_spelling (o := o) (c := c) (by simp [h])
  rw [← Operator.leading?_spelling_append_iff, h, List.cons_append, leading_of_class hl hd]
  cases hq : Operator.leading? (c :: (l ++ r)) with
  | none => simp
  | some q =>
    simp only [Option.elim_some, Token.mk.injEq, Kind.operator.injEq, Option.some.injEq]
    constructor
    · exact fun hqo => hqo.1
    · rintro rfl
      exact ⟨rfl, h⟩

theorem leading_of_illegal {c : Char} (hl : ¬ isLetter c) (hd : ¬ isDigit c)
    (ho : ∀ o : Operator, o.spelling ≠ [c]) (r : Text) : leading c r = ⟨.illegal, [c]⟩ := by
  have hnone : Operator.leading? (c :: r) = none := by
    rw [Operator.leading?_eq_none_iff]
    intro p hp
    obtain ⟨d, l, hdl, q, hq⟩ := p.exists_single
    rw [hdl, List.cons_prefix_cons] at hp
    exact ho q (hp.1 ▸ hq)
  rw [leading_of_class (by simpa using hl) (by simpa using hd), hnone]
  rfl

/-- A well-formed token is read off a text that begins with its literal unless it runs on. -/
theorem WellFormed.leading_append_iff {t : Token} (h : t.WellFormed) {c : Char} {l : Text}
    (hl : t.literal = c :: l) (r : Text) : leading c (l ++ r) = t ↔ ¬ t.kind.RunsInto r := by
  rcases h.shape with ⟨w, hw, rfl⟩ | ⟨n, hn, rfl⟩ | ⟨o, rfl⟩ | ⟨d, _, hld, hdd, ho, rfl⟩
  · cases hl
    exact leading_word_append_iff hw r
  · cases hl
    exact leading_integer_append_iff hn r
  · rw [show o.spelling = c :: l from hl]
    exact leading_operator_append_iff hl r
  · cases hl
    simp [leading_of_illegal hld hdd ho, Kind.RunsInto, Kind.continuedBy]

theorem wellFormed_leading {c : Char} (h : ¬ isBlank c) (rest : Text) :
    (leading c rest).WellFormed := by
  by_cases hl : isLetter c
  · rw [leading_of_isLetter hl]
    exact wellFormed_word (isWord_takeWhile hl rest)
  · by_cases hd : isDigit c
    · rw [leading_of_isDigit hd]
      exact .integer (isNumeral_takeWhile hd rest)
    · rw [leading_of_class (by simpa using hl) (by simpa using hd)]
      cases ho : Operator.leading? (c :: rest) with
      | some o => exact .operator o
      | none =>
        refine .illegal h hl hd ?_
        intro o hoc
        apply Operator.leading?_eq_none_iff.mp ho o
        rw [hoc]
        exact ⟨rest, rfl⟩

/-- A token is well formed if its literal is visible and, read alone, gives the token back. -/
theorem wellFormed_iff_of_literal {t : Token} {c : Char} {l : Text} (hl : t.literal = c :: l) :
    t.WellFormed ↔ ¬ isBlank c ∧ leading c l = t := by
  constructor
  · intro h
    have hread := (h.leading_append_iff hl []).mpr (Kind.not_runsInto_nil _)
    rw [List.append_nil] at hread
    exact ⟨h.not_isBlank_of_mem (by simp [hl]), hread⟩
  · rintro ⟨hc, hread⟩
    rw [← hread]
    exact wellFormed_leading hc l

instance (t : Token) : Decidable t.WellFormed :=
  match hl : t.literal with
  | [] => isFalse fun h => h.literal_ne_nil hl
  | _ :: _ => decidable_of_iff _ (wellFormed_iff_of_literal hl).symm

example : ¬ (⟨.identifier, "if"⟩ : Token).WellFormed := by decide

theorem exists_leading_split (c : Char) (rest : Text) :
    ∃ l r, (leading c rest).literal = c :: l ∧ rest = l ++ r := by
  obtain ⟨r, hr⟩ := literal_leading_prefix c rest
  obtain ⟨d, l, hdl⟩ := List.exists_cons_of_ne_nil (literal_leading_ne_nil c rest)
  rw [hdl] at hr
  obtain ⟨rfl, hrest⟩ := List.cons.inj hr
  exact ⟨l, r, hdl, hrest.symm⟩

end Token

def IsBlankText (w : Text) : Prop := ∀ c ∈ w, isBlank c

instance (w : Text) : Decidable (IsBlankText w) :=
  decidable_of_iff (w.all isBlank) List.all_eq_true

theorem skipBlanks_append {w : Text} (h : IsBlankText w) (t : Text) :
    Text.skipBlanks (w ++ t) = t.skipBlanks :=
  List.dropWhile_append_of_pos h

theorem exists_blank_append_skipBlanks (t : Text) : ∃ w, IsBlankText w ∧ w ++ t.skipBlanks = t :=
  ⟨t.takeWhile isBlank, fun _ hc => List.mem_takeWhile_imp hc, List.takeWhile_append_dropWhile⟩

theorem not_isBlank_of_skipBlanks {t : Text} {c : Char} {rest : Text}
    (h : t.skipBlanks = c :: rest) : ¬ isBlank c := by
  have hhead := List.head?_dropWhile_not isBlank t
  rw [show t.dropWhile isBlank = c :: rest from h] at hhead
  simpa using hhead

theorem lexemes_append_of_isBlankText {w : Text} (h : IsBlankText w) (t : Text) :
    lexemes (w ++ t) = lexemes t := by
  cases ht : t.skipBlanks with
  | nil =>
    rw [lexemes_of_skipBlanks_eq_nil ht,
      lexemes_of_skipBlanks_eq_nil ((skipBlanks_append h t).trans ht)]
  | cons c rest =>
    rw [lexemes_of_skipBlanks_eq_cons ht,
      lexemes_of_skipBlanks_eq_cons ((skipBlanks_append h t).trans ht)]

theorem lexemes_skipBlanks (t : Text) : lexemes t.skipBlanks = lexemes t := by
  obtain ⟨w, hw, ht⟩ := exists_blank_append_skipBlanks t
  calc
    lexemes t.skipBlanks = lexemes (w ++ t.skipBlanks) := (lexemes_append_of_isBlankText hw _).symm
    _ = lexemes t := congrArg lexemes ht

theorem lexemes_eq_nil_iff {t : Text} : lexemes t = [] ↔ IsBlankText t := by
  constructor
  · intro h
    cases ht : t.skipBlanks with
    | nil => exact List.dropWhile_eq_nil_iff.mp ht
    | cons c rest => simp [lexemes_of_skipBlanks_eq_cons ht] at h
  · exact fun h => lexemes_of_skipBlanks_eq_nil (List.dropWhile_eq_nil_iff.mpr h)

@[simp] theorem lexemes_nil : lexemes [] = [] :=
  lexemes_eq_nil_iff.mpr fun _ hc => absurd hc List.not_mem_nil

/-- A text that begins with the literal of a well-formed token has it as its first token exactly
if the token does not run on; the other tokens are then those of the rest. -/
theorem Token.WellFormed.lexemes_append_iff {t : Token} (h : t.WellFormed) (r : Text)
    (ts : List Token) :
    lexemes (t.literal ++ r) = t :: ts ↔ ¬ t.kind.RunsInto r ∧ lexemes r = ts := by
  obtain ⟨c, l, hcl, hc⟩ := h.exists_literal
  have hskip : Text.skipBlanks (t.literal ++ r) = c :: (l ++ r) := by
    rw [hcl]
    exact List.dropWhile_cons_of_neg hc
  have hlead := h.leading_append_iff hcl r
  rw [lexemes_of_skipBlanks_eq_cons hskip, List.cons.injEq, hlead]
  refine and_congr_right ?_
  intro hr
  rw [hlead.mpr hr, ← List.cons_append, ← hcl, List.drop_left]

theorem lexemes_token {w : Text} {t : Token} {r : Text} (hw : IsBlankText w) (ht : t.WellFormed)
    (hr : ¬ t.kind.RunsInto r) : lexemes (w ++ (t.literal ++ r)) = t :: lexemes r := by
  rw [lexemes_append_of_isBlankText hw]
  exact (ht.lexemes_append_iff r _).mpr ⟨hr, rfl⟩

/-- Every text is blank or begins, behind blanks, with a well-formed token that does not run into
the rest. -/
@[elab_as_elim] theorem Text.tokenInduction {motive : Text → Prop}
    (blank : ∀ w, IsBlankText w → motive w)
    (token : ∀ w t r, IsBlankText w → Token.WellFormed t → ¬ t.kind.RunsInto r → motive r →
      motive (w ++ (t.literal ++ r))) (s : Text) : motive s := by
  obtain ⟨w, hw, hs⟩ := exists_blank_append_skipBlanks s
  cases hrest : s.skipBlanks with
  | nil => exact blank s (List.dropWhile_eq_nil_iff.mp hrest)
  | cons c rest =>
    obtain ⟨l, r, hl, rfl⟩ := Token.exists_leading_split c rest
    have ht := Token.wellFormed_leading (not_isBlank_of_skipBlanks hrest) (l ++ r)
    have hr := (ht.leading_append_iff hl r).mp rfl
    have hlt : r.length < s.length := by
      rw [← hs, hrest]
      simp only [List.length_append, List.length_cons]
      omega
    have hmotive := token _ _ r hw ht hr (Text.tokenInduction blank token r)
    rwa [hl, List.cons_append, ← hrest, hs] at hmotive
termination_by s.length

end MonkeyLexis
