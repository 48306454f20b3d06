import Mathlib.Data.List.Chain
import MonkeyLexis.Proofs.WellFormed
import MonkeyLexis.Scan.SharedCursor

/-!
# Layouts

A layout puts items in a row with a gap before each and one behind the last. When
the items are well-formed tokens and the gaps are blank, scanning the text gives
the tokens back exactly if a gap stands wherever a token would run into the next.
A cursor takes no other tokens than well-formed ones, wherever it stands.
-/

namespace MonkeyLexis

open Alphabet

/-- Items in a row, each with the gap before it, and the gap behind them. -/
structure Layout (α : Type) where
  items : List (Text × α)
  trailing : Text

namespace Layout

variable {α : Type} {w e : Text} {a : α} {items : List (Text × α)}

def contents (d : Layout α) : List α := d.items.map Prod.snd

def Blank (d : Layout α) : Prop := (∀ p ∈ d.items, IsBlankText p.1) ∧ IsBlankText d.trailing

instance (d : Layout α) : Decidable d.Blank := inferInstanceAs (Decidable (_ ∧ _))

/-- The text in which every item is written as `spell` tells. -/
def text (spell : α → Text) (d : Layout α) : Text :=
  d.items.foldr (fun p rest => p.1 ++ (spell p.2 ++ rest)) d.trailing

@[simp] theorem contents_nil : (mk [] e : Layout α).contents = [] := rfl

@[simp] theorem contents_cons : (mk ((w, a) :: items) e).contents = a :: (mk items e).contents := rfl

@[simp] theorem text_nil (spell : α → Text) : (mk [] e).text spell = e := rfl

@[simp] theorem text_cons (spell : α → Text) :
    (mk ((w, a) :: items) e).text spell = w ++ (spell a ++ (mk items e).text spell) := rfl

theorem blank_nil_iff : (mk [] e : Layout α).Blank ↔ IsBlankText e := by
  simp [Blank]

theorem blank_cons_iff :
    (mk ((w, a) :: items) e).Blank ↔ IsBlankText w ∧ (mk items e).Blank := by
  simp [Blank, and_assoc]

/-- Where a token would run into the next one, the gap between them is not empty. -/
def Separated (d : Layout Token) : Prop :=
  d.items.IsChain fun p q => q.1 = [] → ¬ p.2.kind.RunsInto q.2.literal

instance (d : Layout Token) : Decidable d.Separated := inferInstanceAs (Decidable (List.IsChain _ _))

end Layout

theorem not_runsInto_blank_append {w : Text} (h : IsBlankText w) (hne : w ≠ []) (k : Kind)
    (t : Text) : ¬ k.RunsInto (w ++ t) := by
  rw [Kind.runsInto_append hne]
  rintro ⟨c, hc, hk⟩
  exact Kind.not_continuedBy_of_isBlank (h c (List.mem_of_head? hc)) k hk

/-- Only the gap and the item right behind a token decide whether it runs on. -/
theorem runsInto_text_cons_iff {w : Text} {t : Token} {items : List (Text × Token)} {e : Text}
    (hw : IsBlankText w) (ht : t.WellFormed) (k : Kind) :
    k.RunsInto ((Layout.mk ((w, t) :: items) e).text Token.literal) ↔
      w = [] ∧ k.RunsInto t.literal := by
  rw [Layout.text_cons]
  by_cases hne : w = []
  · rw [hne, List.nil_append, Kind.runsInto_append ht.literal_ne_nil, and_iff_right rfl]
  · simp [not_runsInto_blank_append hw hne, hne]

theorem lexemes_text_iff {d : Layout Token} (hb : d.Blank) (hd : ∀ t ∈ d.contents, t.WellFormed) :
    lexemes (d.text Token.literal) = d.contents ↔ d.Separated := by
  obtain ⟨items, e⟩ := d
  induction items with
  | nil => simp [Layout.Separated, lexemes_eq_nil_iff, Layout.blank_nil_iff.mp hb]
  | cons p items ih =>
    obtain ⟨w, t⟩ := p
    obtain ⟨hw, hb⟩ := Layout.blank_cons_iff.mp hb
    obtain ⟨ht, hd⟩ := List.forall_mem_cons.mp hd
    rw [Layout.text_cons, Layout.contents_cons, lexemes_append_of_isBlankText hw,
      ht.lexemes_append_iff, ih hb hd]
    cases items with
    | nil =>
      have he : ¬ t.kind.RunsInto e := by
        rintro ⟨c, hc, hk⟩
        exact Kind.not_continuedBy_of_isBlank
          (Layout.blank_nil_iff.mp hb c (List.mem_of_head? hc)) _ hk
      simp [Layout.Separated, he]
    | cons q items =>
      obtain ⟨v, u⟩ := q
      obtain ⟨hv, _⟩ := Layout.blank_cons_iff.mp hb
      rw [runsInto_text_cons_iff hv (hd u (by simp))]
      simp [Layout.Separated, List.isChain_cons_cons]

theorem wellFormed_next (c : Cursor) : c.next.1 = Token.endOfInput ∨ c.next.1.WellFormed := by
  cases h : Text.skipBlanks c.ahead with
  | nil => exact .inl (by rw [Cursor.next_of_nil h])
  | cons first rest =>
    right
    rw [Cursor.next_of_cons h]
    exact Token.wellFormed_leading (not_isBlank_of_skipBlanks h) rest

/-- Whatever was asked of a cursor before, the next token is the end token or well formed. Well-formed
tokens that are written with blanks between them are read back exactly if they are separated. -/
theorem tokens_of_layout :
    (∀ (source : Text) (requests : List Request),
      ∃ t, (((SharedCursor.start source).after requests).serve .next).1 = .token t ∧
        (t = Token.endOfInput ∨ t.WellFormed)) ∧
    ∀ d : Layout Token, d.Blank → (∀ t ∈ d.contents, t.WellFormed) →
      (tokens (d.text Token.literal) = d.contents ++ [Token.endOfInput] ↔ d.Separated) := by
  constructor
  · intro source requests
    exact ⟨_, rfl, wellFormed_next _⟩
  · intro d hb hd
    rw [tokens, List.append_left_inj]
    exact lexemes_text_iff hb hd

/-- A numeral needs no gap before a word, nor a pair before an equals sign; an equals sign does. -/
theorem tokens_of_narrow_layout :
    let d : Layout Token := ⟨[([], ⟨.integer, "12"⟩), ([], ⟨.identifier, "a_1"⟩),
      ("\t", ⟨.keyword .ifWord, "if"⟩), ([], ⟨.operator .equal, "=="⟩),
      ([], ⟨.operator .assign, "="⟩), ("\n", ⟨.operator .assign, "="⟩), ([], ⟨.illegal, "@"⟩)], []⟩
    d.Blank ∧ (∀ t ∈ d.contents, t.WellFormed) ∧ d.Separated ∧
      tokens "12a_1\tif===\n=@" = d.contents ++ [Token.endOfInput] := by
  intro d
  have hb : d.Blank := by decide
  have hd : ∀ t ∈ d.contents, t.WellFormed := by decide
  have hs : d.Separated := by decide
  exact ⟨hb, hd, hs, (tokens_of_layout.2 d hb hd).mpr hs⟩

end MonkeyLexis
