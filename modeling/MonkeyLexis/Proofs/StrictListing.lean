import MonkeyLexis.Proofs.ForeignCharacters
import MonkeyLexis.Proofs.SourceWords

/-!
# Strict listings

On request illegal characters count as an error. What is listed does not change: the
foreign characters of the text, one by one, are the literals of the records of illegal
tokens in either case. With the request and at least one such record the command tells
their number after the listing and returns 1.
-/

namespace MonkeyLexis
namespace Command
namespace Lex

open Alphabet CommandLine

variable {content : Path → Except FileSystem.ReadFailure Bytes} {t word : Text}

/-- The word makes the command list the text: it names a file that holds the text, or has the text
behind `--expr=`. There two dashes are not taken for a text. -/
inductive Gives (content : Path → Except FileSystem.ReadFailure Bytes) (t : Text) : Text → Prop
  | file {word : Text} (hword : Word.classify switches word = .ok .plain)
      (hcontent : content (.ofText word) = .ok (Utf8.encode t)) : Gives content t word
  | expression (ht : t ≠ ['-', '-']) : Gives content t (expressionWord t)

/-- Whatever gives the text, the command lists some cut of it, the same under all flags. -/
theorem Gives.exists_cut (h : Gives content t word) :
    ∃ pieces, IsCutOf t pieces ∧ ∀ before after,
      run content (wordsAround before word after) =
        verdict (decide (Flag.strict ∈ before ++ after))
          (Listing.entries (decide (Flag.showEnd ∈ before ++ after)) pieces) := by
  cases h with
  | file hword hcontent => exact ⟨_, isCutOf_unified_lines t, run_file hword hcontent⟩
  | expression ht => exact ⟨_, isCutOf_lines t, run_expression ht⟩

/-- The flags without the request to count illegal characters as an error. -/
def lenient (flags : List Flag) : List Flag := flags.filter (· != .strict)

theorem strict_not_mem_lenient (before after : List Flag) :
    Flag.strict ∉ lenient before ++ lenient after := by
  simp [lenient]

theorem showEnd_mem_lenient_iff (before after : List Flag) :
    Flag.showEnd ∈ lenient before ++ lenient after ↔ Flag.showEnd ∈ before ++ after := by
  simp [lenient]

theorem report_illegal (n : Nat) :
    report (Numeral.decimal n ++ " illegal character(s)") =
      "[monkey-lex:error] " ++ Numeral.decimal n ++ " illegal character(s)\n" := by
  have hend : (" illegal character(s)" : Text) ++ "\n" = " illegal character(s)\n" := rfl
  unfold report
  rw [← hend, List.append_assoc, List.append_assoc, List.append_assoc]

theorem verdict_eq (strict : Prop) [Decidable strict] (es : List Entry) :
    verdict (decide strict) es =
      if strict ∧ 0 < Listing.illegalCount es then
        .returned (Listing.written es ++ ("[monkey-lex:error] " ++
          Numeral.decimal (Listing.illegalCount es) ++ " illegal character(s)\n")) 1
      else verdict false es := by
  have hcond : (decide strict && Listing.illegalCount es != 0) = true ↔
      strict ∧ 0 < Listing.illegalCount es := by
    simp [Nat.pos_iff_ne_zero]
  rw [← report_illegal]
  exact if_congr hcond rfl rfl

/-- Without the flag the command returns 0, and its records of illegal tokens show the foreign
characters of the text in order. With the flag the output is the same if there are none; otherwise a
line with their number follows, and the status is 1. -/
theorem strict_reports_foreign_characters (h : Gives content t word) (before after : List Flag) :
    let n := t.countP isForeign
    let listed := run content (wordsAround (lenient before) word (lenient after))
    listed = .returned listed.stdout 0 ∧
      (Listing.illegalRecords listed.stdout).map Fields.literal =
        (t.filter isForeign).map (fun c => Quoted.encode [c]) ∧
      run content (wordsAround before word after) =
        if Flag.strict ∈ before ++ after ∧ 0 < n then
          .returned (listed.stdout ++
            ("[monkey-lex:error] " ++ Numeral.decimal n ++ " illegal character(s)\n")) 1
        else listed := by
  intro n listed
  obtain ⟨pieces, hcut, hrun⟩ := h.exists_cut
  have hcount : Listing.illegalCount
      (Listing.entries (decide (Flag.showEnd ∈ before ++ after)) pieces) = n :=
    Listing.illegalCount_entries hcut _
  have hlisted : listed =
      verdict false (Listing.entries (decide (Flag.showEnd ∈ before ++ after)) pieces) := by
    have hlenient := hrun (lenient before) (lenient after)
    rwa [decide_eq_false (strict_not_mem_lenient before after),
      decide_eq_decide.mpr (showEnd_mem_lenient_iff before after)] at hlenient
  refine ⟨?_, ?_, ?_⟩
  · rw [hlisted]
    rfl
  · rw [hlisted]
    exact Listing.map_literal_illegalRecords hcut _
  · rw [hrun, verdict_eq, hcount, hlisted]
    rfl

/-- A carriage return parts the two foreign characters of a file; neither one hides the other. -/
theorem strict_reports_two_foreign_characters :
    let t : Text := "a!=@\r\n 5é\rx"
    let file : Text := "a.monkey"
    let content : Path → Except FileSystem.ReadFailure Bytes := fun path =>
      if path = .ofText file then .ok (Utf8.encode t) else .error .notFound
    Gives content t file ∧
      run content (wordsAround [.showEnd] file [.strict]) =
        .returned
          ("1:IDENT\t'a'\n1:NOT_EQ\t'!='\n1:ILLEGAL\t'@'\n1:EOF\t''\n" ++
            "2:INT\t'5'\n2:ILLEGAL\t'é'\n2:EOF\t''\n3:IDENT\t'x'\n3:EOF\t''\n" ++
            "[monkey-lex:error] 2 illegal character(s)\n") 1 := by
  intro t file content
  have hgives : Gives content t file := .file rfl (if_pos rfl)
  obtain ⟨_, _, hstrict⟩ := strict_reports_foreign_characters hgives [.showEnd] [.strict]
  refine ⟨hgives, hstrict.trans ?_⟩
  decide +kernel

/-- Two dashes have no foreign character, but given behind `--expr=` they are not listed at all. -/
theorem strict_expression_of_dashes_fails :
    let t : Text := "--"
    let content : Path → Except FileSystem.ReadFailure Bytes := fun _ => .error .notFound
    t.countP isForeign = 0 ∧
      wordsAround [] (expressionWord t) [.strict] = ["--expr=--", "--strict"] ∧
      run content (wordsAround [] (expressionWord t) [.strict]) = .failed [] .expressionMissing ∧
      run content (wordsAround [] (expressionWord t) []) = .failed [] .expressionMissing := by
  intro t content
  exact ⟨by decide, rfl, run_expression_dashes [] [.strict], run_expression_dashes [] []⟩

end Lex
end Command
end MonkeyLexis
