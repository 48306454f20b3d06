import MonkeyLexis.Proofs.Layout

/-!
# Longest match

A text is cut into lexemes by the rule of the longest match: behind the blanks
stands the longest lexeme that begins the rest, or one character if no lexeme
does. There is exactly one way to cut a text by this rule, and its pieces are the
literals of the tokens.
-/

namespace MonkeyLexis

open Alphabet

/-- The longest lexeme at the start of `t`, or its first character where no lexeme begins. -/
def IsLongestMatch (l t : Text) : Prop :=
  l <+: t ∧ ((IsLexeme l ∧ ∀ m, IsLexeme m → m <+: t → m.length ≤ l.length) ∨
    ((∀ m, IsLexeme m → ¬ m <+: t) ∧ l.length = 1))

/-- The text `s` is cut by the rule of the longest match: blank gaps, and behind each of them a
longest match that does not begin with a blank. -/
structure Layout.IsMunchOf (d : Layout Text) (s : Text) : Prop where
  text : d.text id = s
  blank : d.Blank
  visible : ∀ l ∈ d.contents, ∃ c rest, l = c :: rest ∧ ¬ isBlank c
  longest : ∀ before w l after, d.items = before ++ (w, l) :: after →
    IsLongestMatch l (l ++ (Layout.mk after d.trailing).text id)

theorem IsLongestMatch.unique {l m t : Text} (hl : IsLongestMatch l t) (hm : IsLongestMatch m t) :
    l = m := by
  have hlen : l.length = m.length := by
    rcases hl with ⟨hlt, ⟨hlex, hmax⟩ | ⟨hnone, hone⟩⟩
    · rcases hm with ⟨hmt, ⟨hmlex, hmmax⟩ | ⟨hmnone, _⟩⟩
      · exact le_antisymm (hmmax l hlex hlt) (hmax m hmlex hmt)
      · exact absurd hlt (hmnone l hlex)
    · rcases hm with ⟨hmt, ⟨hmlex, _⟩ | ⟨_, hmone⟩⟩
      · exact absurd hmt (hnone m hmlex)
      · exact hone.trans hmone.symm
  exact (List.prefix_of_prefix_length_le hl.1 hm.1 hlen.le).eq_of_length hlen

theorem isLongestMatch_word {w r : Text} (hw : IsWord w) (hr : ¬ (Token.word w).kind.RunsInto r) :
    IsLongestMatch w (w ++ r) := by
  refine ⟨List.prefix_append w r, .inl ⟨.word hw, ?_⟩⟩
  intro m hm hmt
  have hhead : ∀ c ∈ r.head?, ¬ isWordChar c := by
    intro c hc hcw
    exact hr ⟨c, hc, by rwa [Token.word, Kind.continuedBy_ofWord]⟩
  obtain ⟨c, rest, rfl, hc, hrest⟩ := id hw
  obtain ⟨l, rfl⟩ := hm.cons_of_prefix hmt
  exact length_le_of_prefix_append hw.all hhead hmt (hm.isWord hc).all

theorem isLongestMatch_numeral {n r : Text} (hn : IsNumeral n) (hr : ¬ Kind.integer.RunsInto r) :
    IsLongestMatch n (n ++ r) := by
  refine ⟨List.prefix_append n r, .inl ⟨.numeral hn, ?_⟩⟩
  intro m hm hmt
  have hhead : ∀ c ∈ r.head?, ¬ isDigit c := fun c hc hcd => hr ⟨c, hc, hcd⟩
  obtain ⟨c, rest, rfl⟩ := List.exists_cons_of_ne_nil hn.1
  obtain ⟨l, rfl⟩ := hm.cons_of_prefix hmt
  exact length_le_of_prefix_append hn.2 hhead hmt (hm.isNumeral (hn.2 c (by simp))).2

theorem isLongestMatch_operator {o : Operator} {r : Text} (hr : ¬ (Kind.operator o).RunsInto r) :
    IsLongestMatch o.spelling (o.spelling ++ r) := by
  refine ⟨List.prefix_append _ r, .inl ⟨.operator o, ?_⟩⟩
  intro m hm hmt
  have hmax := (Operator.leading?_eq_some_iff.mp
    ((Operator.leading?_spelling_append_iff o r).mpr hr)).2
  obtain ⟨c, rest, hcons⟩ := List.exists_cons_of_ne_nil o.spelling_ne_nil
  obtain ⟨_, hl, hd⟩ := Operator.class_of_mem_spelling (o := o) (c := c) (by simp [hcons])
  rw [hcons] at hmt
  obtain ⟨l, rfl⟩ := hm.cons_of_prefix hmt
  obtain ⟨p, hp⟩ := hm.exists_operator (by simp [hl]) (by simp [hd])
  rw [← hp] at hmt ⊢
  exact hmax p (by rwa [hcons])

theorem isLongestMatch_illegal {c : Char} (hl : ¬ isLetter c) (hd : ¬ isDigit c)
    (ho : ∀ o : Operator, o.spelling ≠ [c]) (r : Text) : IsLongestMatch [c] ([c] ++ r) := by
  refine ⟨List.prefix_append _ r, .inr ⟨?_, rfl⟩⟩
  intro m hm hmt
  obtain ⟨l, rfl⟩ := hm.cons_of_prefix hmt
  obtain ⟨o, hol⟩ := hm.exists_operator hl hd
  obtain ⟨d, rest, hdr, p, hp⟩ := o.exists_single
  rw [hdr] at hol
  exact ho p (by rw [hp, (List.cons.inj hol).1])

theorem Token.WellFormed.isLongestMatch {t : Token} (h : t.WellFormed) {r : Text}
    (hr : ¬ t.kind.RunsInto r) : IsLongestMatch t.literal (t.literal ++ r) := by
  rcases h.shape with ⟨w, hw, rfl⟩ | ⟨n, hn, rfl⟩ | ⟨o, rfl⟩ | ⟨c, _, hl, hd, ho, rfl⟩
  · exact isLongestMatch_word hw hr
  · exact isLongestMatch_numeral hn hr
  · exact isLongestMatch_operator hr
  · exact isLongestMatch_illegal hl hd ho r

theorem Token.WellFormed.eq_of_literal {t u : Token} (ht : t.WellFormed) (hu : u.WellFormed)
    (h : t.literal = u.literal) : t = u := by
  obtain ⟨c, l, hl, _⟩ := ht.exists_literal
  have hleft : leading c l = t := ((wellFormed_iff_of_literal hl).mp ht).2
  have hright : leading c l = u := ((wellFormed_iff_of_literal (h ▸ hl)).mp hu).2
  exact hleft.symm.trans hright

theorem eq_of_map_literal {ts us : List Token} (ht : ∀ t ∈ ts, t.WellFormed)
    (hu : ∀ u ∈ us, u.WellFormed) (h : ts.map Token.literal = us.map Token.literal) : ts = us := by
  induction ts generalizing us with
  | nil => exact (List.map_eq_nil_iff.mp h.symm).symm
  | cons t ts ih =>
    obtain ⟨u, us', rfl, hlit, hrest⟩ := List.map_eq_cons_iff.mp h.symm
    obtain ⟨ht0, ht⟩ := List.forall_mem_cons.mp ht
    obtain ⟨hu0, hu⟩ := List.forall_mem_cons.mp hu
    rw [ht0.eq_of_literal hu0 hlit.symm, ih ht hu hrest.symm]

namespace Layout

variable {w l e s r : Text} {items : List (Text × Text)}

theorem isMunchOf_nil_iff : (mk [] e).IsMunchOf s ↔ e = s ∧ IsBlankText e := by
  constructor
  · intro h
    exact ⟨h.text, blank_nil_iff.mp h.blank⟩
  · rintro ⟨hs, he⟩
    refine ⟨hs, blank_nil_iff.mpr he, by simp, ?_⟩
    intro before w l after h
    exact absurd h (by simp)

theorem isMunchOf_cons_iff :
    (mk ((w, l) :: items) e).IsMunchOf s ↔
      IsBlankText w ∧ (∃ c rest, l = c :: rest ∧ ¬ isBlank c) ∧
        ∃ r, s = w ++ (l ++ r) ∧ IsLongestMatch l (l ++ r) ∧ (mk items e).IsMunchOf r := by
  constructor
  · rintro ⟨htext, hblank, hvisible, hlongest⟩
    obtain ⟨hw, hblank⟩ := blank_cons_iff.mp hblank
    obtain ⟨hl, hvisible⟩ := List.forall_mem_cons.mp hvisible
    refine ⟨hw, hl, _, htext.symm, hlongest [] w l items rfl, rfl, hblank, hvisible, ?_⟩
    intro before v m after h
    exact hlongest ((w, l) :: before) v m after (congrArg ((w, l) :: ·) h)
  · rintro ⟨hw, hl, r, rfl, hmatch, htext, hblank, hvisible, hlongest⟩
    refine ⟨?_, blank_cons_iff.mpr ⟨hw, hblank⟩, List.forall_mem_cons.mpr ⟨hl, hvisible⟩, ?_⟩
    · rw [text_cons, htext]
      rfl
    · intro before v m after h
      cases before with
      | nil =>
        obtain ⟨hvl, rfl⟩ := List.cons.inj h
        obtain ⟨rfl, rfl⟩ := Prod.mk.inj hvl
        simpa only [htext] using hmatch
      | cons p before => exact hlongest before v m after (List.cons.inj h).2

theorem takeWhile_gap (hw : IsBlankText w) (hl : ∃ c rest, l = c :: rest ∧ ¬ isBlank c) (r : Text) :
    (w ++ (l ++ r)).takeWhile isBlank = w := by
  obtain ⟨c, rest, rfl, hc⟩ := hl
  rw [takeWhile_append_eq_left_iff hw]
  simpa using hc

theorem IsMunchOf.unique {d f : Layout Text} (hd : d.IsMunchOf s) (hf : f.IsMunchOf s) : d = f := by
  obtain ⟨items, e⟩ := d
  obtain ⟨others, e'⟩ := f
  induction items generalizing others s with
  | nil =>
    obtain ⟨rfl, he⟩ := isMunchOf_nil_iff.mp hd
    cases others with
    | nil => rw [(isMunchOf_nil_iff.mp hf).1]
    | cons q others =>
      obtain ⟨v, m⟩ := q
      obtain ⟨_, ⟨c, rest, rfl, hc⟩, r, rfl, _⟩ := isMunchOf_cons_iff.mp hf
      exact absurd (he c (by simp)) hc
  | cons p items ih =>
    obtain ⟨w, l⟩ := p
    obtain ⟨hw, hl, r, rfl, hmatch, hr⟩ := isMunchOf_cons_iff.mp hd
    cases others with
    | nil =>
      obtain ⟨rfl, he⟩ := isMunchOf_nil_iff.mp hf
      obtain ⟨c, rest, rfl, hc⟩ := hl
      exact absurd (he c (by simp)) hc
    | cons q others =>
      obtain ⟨v, m⟩ := q
      obtain ⟨hv, hm, t, htext, hmmatch, ht⟩ := isMunchOf_cons_iff.mp hf
      -- the gaps agree first, then the pieces, and only then the rests are the same text
      have hgap := congrArg (List.takeWhile isBlank) htext
      rw [takeWhile_gap hw hl, takeWhile_gap hv hm] at hgap
      subst hgap
      have hbehind := List.append_cancel_left htext
      rw [← hbehind] at hmmatch
      have hlm := hmatch.unique hmmatch
      subst hlm
      rw [List.append_cancel_left hbehind] at hr
      have htail := ih hr others ht
      rw [mk.injEq] at htail ⊢
      exact ⟨congrArg ((w, l) :: ·) htail.1, htail.2⟩

theorem exists_isMunchOf (s : Text) :
    ∃ d : Layout Text, d.IsMunchOf s ∧ (lexemes s).map Token.literal = d.contents ∧
      ∀ t ∈ lexemes s, t.WellFormed := by
  induction s using Text.tokenInduction with
  | blank w hw =>
    refine ⟨⟨[], w⟩, isMunchOf_nil_iff.mpr ⟨rfl, hw⟩, ?_⟩
    simp [lexemes_eq_nil_iff.mpr hw]
  | token w t r hw ht hr ih =>
    obtain ⟨⟨items, e⟩, hd, hmap, hall⟩ := ih
    refine ⟨⟨(w, t.literal) :: items, e⟩, ?_, ?_, ?_⟩
    · exact isMunchOf_cons_iff.mpr ⟨hw, ht.exists_literal, r, rfl, ht.isLongestMatch hr, hd⟩
    · rw [lexemes_token hw ht hr, List.map_cons, hmap, contents_cons]
    · rw [lexemes_token hw ht hr]
      exact List.forall_mem_cons.mpr ⟨ht, hall⟩

end Layout

/-- Every text is cut by the rule of the longest match in exactly one way. Only one list of
well-formed tokens has the pieces for literals, and a scan gives this list and the end token. -/
theorem tokens_of_longest_match (s : Text) :
    ∃ (d : Layout Text) (ts : List Token),
      (∀ e : Layout Text, e.IsMunchOf s ↔ e = d) ∧
      (∀ us : List Token,
        (us.map Token.literal = d.contents ∧ ∀ u ∈ us, u.WellFormed) ↔ us = ts) ∧
      tokens s = ts ++ [Token.endOfInput] ∧ (Cursor.start s).scan.1 = tokens s := by
  obtain ⟨d, hd, hmap, hall⟩ := Layout.exists_isMunchOf s
  refine ⟨d, lexemes s, ?_, ?_, rfl, Cursor.scan_tokens _⟩
  · intro e
    exact ⟨fun he => he.unique hd, fun he => he ▸ hd⟩
  · intro us
    constructor
    · rintro ⟨hus, husall⟩
      exact eq_of_map_literal husall hall (hus.trans hmap.symm)
    · rintro rfl
      exact ⟨hmap, hall⟩

end MonkeyLexis
