import MonkeyLexis.Proofs.WellFormed

/-!
# Tokens of a concatenation

Two texts written one after the other have the tokens of the first and then those
of the second, unless the last token of the first runs on into the second. Where
it does, only that token is affected. Whether it does depends on its kind and on
one character, since no token is decided by anything farther ahead.
-/

namespace MonkeyLexis

open Alphabet

/-- The last token of `s` reaches its end and is continued by the first character of `t`. -/
def Glued (s t : Text) : Prop :=
  (∃ c ∈ s.getLast?, ¬ isBlank c) ∧ ∃ k ∈ (lexemes s).getLast?, k.kind.RunsInto t

instance (s t : Text) : Decidable (Glued s t) :=
  decidable_of_iff
    (s.getLast?.any (!isBlank ·) ∧ (lexemes s).getLast?.any fun k => decide (k.kind.RunsInto t))
    (by simp [Glued, Option.any_eq_true])

theorem not_glued_of_isBlankText {w : Text} (h : IsBlankText w) (t : Text) : ¬ Glued w t := by
  rintro ⟨_, k, hk, _⟩
  rw [lexemes_eq_nil_iff.mpr h] at hk
  exact absurd hk (by simp)

variable {w : Text} {k : Token} {r : Text}

theorem glued_single_iff (hw : IsBlankText w) (hk : k.WellFormed) (t : Text) :
    Glued (w ++ (k.literal ++ [])) t ↔ k.kind.RunsInto t := by
  have hlast : ∃ c ∈ (w ++ (k.literal ++ [])).getLast?, ¬ isBlank c := by
    have hne := hk.literal_ne_nil
    refine ⟨k.literal.getLast hne, ?_, hk.not_isBlank_of_mem (List.getLast_mem hne)⟩
    simp [List.getLast?_append, List.getLast?_eq_some_getLast hne]
  rw [Glued, and_iff_right hlast, lexemes_token hw hk (Kind.not_runsInto_nil _)]
  simp

/-- What stands before a text that is not empty has no part in how it is glued. -/
theorem glued_token_iff (hw : IsBlankText w) (hk : k.WellFormed) (hr : ¬ k.kind.RunsInto r)
    (hne : r ≠ []) (t : Text) : Glued (w ++ (k.literal ++ r)) t ↔ Glued r t := by
  have hlast : (w ++ (k.literal ++ r)).getLast? = r.getLast? := by
    rw [← List.append_assoc, List.getLast?_append, List.getLast?_eq_some_getLast hne,
      Option.some_or]
  rw [Glued, Glued, hlast, lexemes_token hw hk hr]
  refine and_congr_right ?_
  rintro ⟨c, hc, hcb⟩
  have hlex : lexemes r ≠ [] := by
    intro hnil
    exact hcb (lexemes_eq_nil_iff.mp hnil c (List.mem_of_getLast? hc))
  rw [List.getLast?_cons_of_ne_nil hlex]

theorem lexemes_append_iff (s t : Text) :
    lexemes (s ++ t) = lexemes s ++ lexemes t ↔ ¬ Glued s t := by
  induction s using Text.tokenInduction with
  | blank w hw =>
    rw [lexemes_append_of_isBlankText hw, lexemes_eq_nil_iff.mpr hw]
    simp [not_glued_of_isBlankText hw t]
  | token w k r hw hk hr ih =>
    -- only the token that ends the first text meets the second text
    by_cases hne : r = []
    · subst hne
      have hs := lexemes_token hw hk hr
      rw [glued_single_iff hw hk, hs, List.append_assoc, List.append_assoc,
        lexemes_append_of_isBlankText hw, List.cons_append, hk.lexemes_append_iff]
      simp
    · have hrt : ¬ k.kind.RunsInto (r ++ t) := by rwa [Kind.runsInto_append hne]
      rw [glued_token_iff hw hk hr hne, ← ih, lexemes_token hw hk hr, List.append_assoc,
        List.append_assoc, lexemes_token hw hk hrt, List.cons_append, List.cons_inj_right]

theorem dropLast_lexemes_prefix_append (s t : Text) : (lexemes s).dropLast <+: lexemes (s ++ t) := by
  induction s using Text.tokenInduction with
  | blank w hw => simp [lexemes_eq_nil_iff.mpr hw]
  | token w k r hw hk hr ih =>
    rw [lexemes_token hw hk hr]
    by_cases hlex : lexemes r = []
    · simp [hlex]
    · have hne : r ≠ [] := by
        rintro rfl
        exact hlex lexemes_nil
      have hrt : ¬ k.kind.RunsInto (r ++ t) := by rwa [Kind.runsInto_append hne]
      rw [List.append_assoc, List.append_assoc, lexemes_token hw hk hrt,
        List.dropLast_cons_of_ne_nil hlex]
      exact (List.prefix_cons_inj k).mpr ih

/-- A text has the tokens of its two parts one after the other exactly if the parts are not glued,
and glued parts differ from that in the last token of the first part at the earliest. -/
theorem tokens_append_iff_not_glued (s t : Text) :
    (tokens (s ++ t) = (tokens s).dropLast ++ tokens t ↔ ¬ Glued s t) ∧
      (lexemes s).dropLast <+: tokens (s ++ t) := by
  constructor
  · rw [← lexemes_append_iff]
    simp only [tokens, List.dropLast_concat, ← List.append_assoc, List.append_left_inj]
  · exact (dropLast_lexemes_prefix_append s t).trans (List.prefix_append _ _)

-- An equals sign that follows one makes another token of both, but not behind two of them.
example : Glued "a=" "=b" ∧
    lexemes ("a=" ++ "=b") =
      [⟨.identifier, "a"⟩, ⟨.operator .equal, "=="⟩, ⟨.identifier, "b"⟩] := by
  decide +kernel

example : ¬ Glued "a==" "=b" ∧
    lexemes ("a==" ++ "=b") =
      [⟨.identifier, "a"⟩, ⟨.operator .equal, "=="⟩, ⟨.operator .assign, "="⟩,
        ⟨.identifier, "b"⟩] := by
  decide +kernel

end MonkeyLexis
