import MonkeyLexis.Proofs.LoneReturns
import MonkeyLexis.Proofs.StrictListing

/-!
# Files and expressions

The command unifies the line ends of a file and leaves those of an expression as they
are. A carriage return before a line feed makes no difference, since it ends up at the
end of a line either way. A lone one does: in a file the line ends there, in an
expression it goes on. So the same text is listed in the same way exactly if there is
nothing to list behind a lone carriage return, and if it is not two dashes, which no
expression can be.
-/

namespace MonkeyLexis
namespace Command
namespace Lex

open CommandLine

variable {content : Path → Except FileSystem.ReadFailure Bytes} {t file : Text}

theorem verdict_inj {strict : Bool} {es fs : List Entry}
    (h : Listing.illegalCount es = Listing.illegalCount fs) :
    verdict strict es = verdict strict fs ↔ es = fs := by
  constructor
  · intro hverdict
    have hstdout := congrArg Outcome.stdout hverdict
    unfold verdict at hstdout
    rw [h] at hstdout
    apply Listing.written_injective
    split at hstdout
    · exact List.append_cancel_right hstdout
    · exact hstdout
  · exact congrArg (verdict strict)

theorem verdict_ne_failed (strict : Bool) (es : List Entry) (failure : Failure) :
    verdict strict es ≠ .failed [] failure := by
  unfold verdict
  split <;> exact fun h => Ending.noConfusion (congrArg Outcome.ending h)

/-- The text of a file and the same text as an expression have the same outcome exactly if no
difference of their line ends shows. With end tokens listed, every line shows, so that a lone
carriage return may only be the last character. Without them, blanks may follow it. -/
theorem file_agrees_with_expression_iff (hfile : Word.classify switches file = .ok .plain)
    (hcontent : content (.ofText file) = .ok (Utf8.encode t)) (before after : List Flag) :
    run content (wordsAround before file after) =
        run content (wordsAround before (expressionWord t) after) ↔
      t ≠ ['-', '-'] ∧ ∀ rest, Text.LoneReturn t rest →
        if Flag.showEnd ∈ before ++ after then rest = [] else IsBlankText rest := by
  rw [run_file hfile hcontent]
  by_cases ht : t = ['-', '-']
  · rw [ht, run_expression_dashes]
    exact iff_of_false (verdict_ne_failed _ _ _) fun h => h.1 rfl
  · -- both are cuts of the same text, so that the verdicts can only differ in their entries
    have hcount : ∀ showEnd,
        Listing.illegalCount (Listing.entries showEnd (Text.lines (Text.unifyLineEnds t))) =
          Listing.illegalCount (Listing.entries showEnd (Text.lines t)) := by
      intro showEnd
      rw [Listing.illegalCount_entries (isCutOf_unified_lines t),
        Listing.illegalCount_entries (isCutOf_lines t)]
    have hentries := Listing.entries_unifyLineEnds_iff (decide (Flag.showEnd ∈ before ++ after)) t
    simp only [decide_eq_true_eq] at hentries
    rw [run_expression ht, verdict_inj (hcount _), eq_comm, hentries, and_iff_right ht]

/-- Lone carriage returns in front of blanks alone, and one before a line feed. -/
theorem file_agrees_with_expression_of_final_returns :
    let t : Text := "a\r\n@==\r \t\r"
    let file : Text := "a.monkey"
    let content : Path → Except FileSystem.ReadFailure Bytes := fun path =>
      if path = .ofText file then .ok (Utf8.encode t) else .error .notFound
    Word.classify switches file = .ok .plain ∧
      content (.ofText file) = .ok (Utf8.encode t) ∧
      run content (wordsAround [.strict] file []) =
        run content (wordsAround [.strict] (expressionWord t) []) := by
  intro t file content
  have hfile : Word.classify switches file = .ok .plain := rfl
  have hcontent : content (.ofText file) = .ok (Utf8.encode t) := if_pos rfl
  refine ⟨hfile, hcontent, ?_⟩
  apply (file_agrees_with_expression_iff hfile hcontent [.strict] []).mpr
  decide

/-- A file has a second line behind the carriage return, an expression has not. -/
theorem file_differs_from_expression_at_return :
    let t : Text := "a\rb"
    let file : Text := "a.monkey"
    let content : Path → Except FileSystem.ReadFailure Bytes := fun path =>
      if path = .ofText file then .ok (Utf8.encode t) else .error .notFound
    run content [file] = .returned "1:IDENT\t'a'\n2:IDENT\t'b'\n" 0 ∧
      run content [expressionWord t] = .returned "1:IDENT\t'a'\n1:IDENT\t'b'\n" 0 := by
  decide +kernel

end Lex
end Command
end MonkeyLexis
