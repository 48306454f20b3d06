import MonkeyLexis.Command.Interact
import MonkeyLexis.Proofs.BlockInput
import MonkeyLexis.Proofs.LineTokens
import MonkeyLexis.Proofs.Records
import MonkeyLexis.Proofs.SessionLines
import MonkeyLexis.Proofs.SourceWords

/-!
# The two commands on the same bytes

The listing command decodes a file at once and numbers its lines; the interactive
command decodes its input block by block and reads a line at a time. Both come to
the same lines. So without a greeting and with an empty prompt a session shows what
the listing of its input tells, up to the line that ends the session.
-/

namespace MonkeyLexis
namespace Command

open CommandLine

namespace Lex

theorem run_of_encoded {content : Path → Except FileSystem.ReadFailure Bytes} {file t : Text}
    (hfile : Word.classify switches file = .ok .plain)
    (hcontent : content (.ofText file) = .ok (Utf8.encode t)) :
    run content [file] =
      .returned
        (Listing.written (Listing.entries false (Text.lines (Text.unifyLineEnds t)))) 0 :=
  run_file hfile hcontent [] []

end Lex

namespace Interact

/-- The command line without a greeting and with an empty prompt. -/
def silent : List Text := ["--no-greeting", "--prompt", []]

theorem settings_silent : settings silent = .ok ⟨some [], false⟩ := by
  decide

/-- The lines before the first `exit` are echoed; whether there is one decides the status. -/
theorem run_silent (user : Identity) (t : Text) :
    let lines := Text.lines (Text.unifyLineEnds t)
    run user (Utf8.encode t) silent =
      .returned ((lines.take (lines.idxOf Session.exitWord)).flatMap Session.echo)
        (if Session.exitWord ∈ lines then 0 else 1) := by
  intro lines
  have houtput := Session.output_run_ofText [] (Text.unifyLineEnds t)
  have hending := Session.ending_run_ofText [] (Text.unifyLineEnds t)
  have hrun : run user (Utf8.encode t) silent = converse [] (.ofText (Text.unifyLineEnds t)) := by
    rw [run, settings_silent, ← Input.ofBytes_encode]
    rfl
  rw [hrun, converse, houtput, hending, List.append_nil]
  by_cases hexit : Session.exitWord ∈ lines
  · rw [if_pos hexit, if_pos hexit]
    rfl
  · rw [if_neg hexit, if_neg hexit]
    rfl

end Interact

/-- Rewritten one by one, the records for some lines are what a session shows for them. -/
theorem flatMap_displayLine_records (lines : List Text) :
    (Listing.records (Listing.written (Listing.entries false lines))).flatMap Fields.displayLine =
      lines.flatMap Session.echo := by
  have hshown : (Listing.entries false lines).flatMap (fun e => e.token.displayLine) =
      lines.flatMap Session.echo := by
    rw [← List.flatMap_map, Listing.entries, Listing.map_token_entriesFrom, List.flatMap_assoc]
    rfl
  rw [Listing.records_written, List.flatMap_map]
  exact hshown

/-- On the bytes of one text a silent session shows the records of the listing, rewritten one by one
and without their numbers. It shows all of them, unless some line is exactly `exit`: then it shows
those of the lines before. The listing does not stop there. -/
theorem session_rewrites_listing (content : Path → Except FileSystem.ReadFailure Bytes)
    (user : Identity) (file t : Text) (hfile : Word.classify Lex.switches file = .ok .plain)
    (hcontent : content (.ofText file) = .ok (Utf8.encode t)) :
    let lines := Text.lines (Text.unifyLineEnds t)
    let listing := Listing.written (Listing.entries false lines)
    let exitLine := lines.idxOf Session.exitWord + 1
    Lex.run content [file] = .returned listing 0 ∧
      (Listing.records listing).flatMap Fields.record = listing ∧
      Interact.run user (Utf8.encode t) Interact.silent =
        if Session.exitWord ∈ lines then
          .returned
            (((Listing.records listing).filter fun r => r.number < exitLine).flatMap
              Fields.displayLine) 0
        else .returned ((Listing.records listing).flatMap Fields.displayLine) 1 := by
  intro lines listing exitLine
  refine ⟨Lex.run_of_encoded hfile hcontent, Listing.flatMap_record_records _, ?_⟩
  rw [Interact.run_silent, Listing.filter_number_lt_records, flatMap_displayLine_records,
    flatMap_displayLine_records]
  by_cases hexit : Session.exitWord ∈ lines
  · rw [if_pos hexit, if_pos hexit]
  · have hall : lines.take (lines.idxOf Session.exitWord) = lines := by
      rw [List.idxOf_eq_length hexit, List.take_length]
    rw [if_neg hexit, if_neg hexit, hall]

/-- A space keeps a line from being `exit`; a carriage return and a line feed both end one. -/
theorem session_rewrites_listing_until_third_line :
    let t : Text := "let a\r\nexit \rexit\nb"
    let file : Text := "a.monkey"
    let content : Path → Except FileSystem.ReadFailure Bytes := fun path =>
      if path = .ofText file then .ok (Utf8.encode t) else .error .notFound
    let user : Identity := ⟨[], .error .missing⟩
    Word.classify Lex.switches file = .ok .plain ∧
      content (.ofText file) = .ok (Utf8.encode t) ∧
      Lex.run content [file] =
        .returned
          "1:LET\t'let'\n1:IDENT\t'a'\n2:IDENT\t'exit'\n3:IDENT\t'exit'\n4:IDENT\t'b'\n" 0 ∧
      Interact.run user (Utf8.encode t) Interact.silent =
        .returned "LET('let')\nIDENT('a')\nIDENT('exit')\n" 0 := by
  intro t file content user
  have hfile : Word.classify Lex.switches file = .ok .plain := rfl
  have hcontent : content (.ofText file) = .ok (Utf8.encode t) := if_pos rfl
  obtain ⟨hlisting, _, hsession⟩ := session_rewrites_listing content user file t hfile hcontent
  refine ⟨hfile, hcontent, hlisting.trans ?_, hsession.trans ?_⟩
  · decide +kernel
  · decide +kernel

end Command
end MonkeyLexis
