import MonkeyLexis.Proofs.FailingSources
import MonkeyLexis.Proofs.OneSource

/-!
# Failures that are not reported

The listing command ends with a status, by help or a usage error or because it returns,
unless it leaves a failure to its caller. There are two reasons for that: the option for
a text was used without one, or something other than a missing name keeps the path from
being read. In all other cases in which the file gives no text, the command reports so
in one message and returns 1.
-/

namespace MonkeyLexis
namespace Command
namespace Lex

open CommandLine FileSystem

variable {s : Settings} {path : Path} {words : List Text}

/-- The endings with a status: help, a usage error, and the two results of the work itself. -/
def statusEndings : List Ending := [.stopped 0, .stopped 2, .returned 0, .returned 1]

theorem ending_of_stop (stop : Stop) : (manual.outcome stop).ending ∈ statusEndings := by
  rcases outcome_of_stop stop with h | ⟨report, h⟩ <;> simp [h, statusEndings]

theorem ending_listText (s : Settings) (text : Text) :
    (listText s text).ending ∈ statusEndings := by
  unfold listText
  simp only
  split <;> simp [Outcome.returned, statusEndings]

theorem ending_listFile_of_text (s : Settings) (path : Path) (text : Text) :
    (listFile s path (.ok (Utf8.encode text))).ending ∈ statusEndings := by
  rw [listFile, Utf8.decode_encode]
  exact ending_listText s _

/-- Why the command leaves a failure to its caller. -/
inductive Leaves (tree : Tree) (words : List Text) : Failure → Prop
  | expressionMissing {s : Settings} (h : settings words = .ok s)
      (hs : s.source = .expression none) : Leaves tree words .expressionMissing
  | file {s : Settings} {path : Path} {cause : ReadFailure} (h : settings words = .ok s)
      (hs : s.source = .file path) (hbars : tree.Bars path cause) :
      Leaves tree words (.file path cause)

theorem Leaves.run_eq {tree : Tree} {failure : Failure} (h : Leaves tree words failure) :
    run tree.read words = .failed [] failure := by
  cases h with
  | expressionMissing h hs =>
    unfold run
    rw [plan_of_no_text h hs]
  | file h hs hbars =>
    rw [run_of_file h hs, hbars.read_eq]
    exact listFile_of_failure hbars.ne_notFound

/-- The command ends with a status if it leaves no failure to its caller. -/
theorem leaves_or_ending_mem (tree : Tree) (words : List Text) :
    (∃ failure, Leaves tree words failure) ∨ (run tree.read words).ending ∈ statusEndings := by
  cases h : settings words with
  | error stop =>
    right
    rw [run_of_stop h]
    exact ending_of_stop stop
  | ok s =>
    rcases hs : s.source with (_ | text) | path
    · exact .inl ⟨_, .expressionMissing h hs⟩
    · right
      rw [run_of_expression h hs]
      exact ending_listText s text
    · rw [run_of_file h hs]
      by_cases htext : ∃ text, tree.read path = .ok (Utf8.encode text)
      · obtain ⟨text, hread⟩ := htext
        right
        rw [hread]
        exact ending_listFile_of_text s path text
      · rcases listFile_of_no_text (not_exists.mp htext) with
          ⟨failure, hne, hread⟩ | hline | ⟨reason, hline⟩
        · exact .inl ⟨_, .file h hs ((Tree.read_eq_error_iff hne).mp hread)⟩
        all_goals
          right
          rw [hline]
          simp [Outcome.returned, statusEndings]

theorem ending_eq_failed_iff {tree : Tree} {failure : Failure} :
    (run tree.read words).ending = .failed failure ↔ Leaves tree words failure := by
  constructor
  · intro h
    rcases leaves_or_ending_mem tree words with ⟨other, hleaves⟩ | hmem
    · rw [hleaves.run_eq] at h
      cases h
      exact hleaves
    · rw [h] at hmem
      simp [statusEndings] at hmem
  · intro h
    rw [h.run_eq]
    rfl

/-- Exactly these failures leave the command, and nothing is written before: the option for a text
came without one, which takes a word with two dashes attached, or the path is barred. Otherwise the
command stops for help or a usage error or returns 0 or 1. A path that is not barred and gives no
text is reported with the status 1 in one line, that the file is missing or that it is malformed. -/
theorem failures_leave_command_iff (tree : Tree) (words : List Text) :
    let outcome := run tree.read words
    (∀ failure, outcome.ending = .failed failure ↔ Leaves tree words failure) ∧
      ((∃ failure, Leaves tree words failure ∧ outcome = .failed [] failure) ∨
        outcome.ending ∈ statusEndings) ∧
      (Leaves tree words .expressionMissing → ∃ word ∈ words, word ∈ dashedWords) ∧
      ∀ s path, settings words = .ok s → s.source = .file path →
        (∀ text, ¬ tree.Holds path (Utf8.encode text)) → (∀ cause, ¬ tree.Bars path cause) →
          outcome = .returned (missingMessage path) 1 ∨
            ∃ reason, outcome = .returned (malformedMessage path reason) 1 := by
  intro outcome
  refine ⟨fun failure => ending_eq_failed_iff, ?endings, ?dashes, ?message⟩
  case endings =>
    rcases leaves_or_ending_mem tree words with ⟨failure, hleaves⟩ | hmem
    · exact .inl ⟨failure, hleaves, hleaves.run_eq⟩
    · exact .inr hmem
  case dashes =>
    rintro ⟨h, hs⟩
    exact exists_dashedWord h hs
  case message =>
    intro s path h hs htext hbars
    have hrun : outcome = listFile s path (tree.read path) := run_of_file h hs
    have hcontent : ∀ text, tree.read path ≠ .ok (Utf8.encode text) :=
      fun text hread => htext text (Tree.read_eq_ok_iff.mp hread)
    rw [hrun]
    rcases listFile_of_no_text hcontent with ⟨failure, hne, hread⟩ | hline
    · exact absurd ((Tree.read_eq_error_iff hne).mp hread) (hbars failure)
    · exact hline

/-- A path through a file leaves the command; a file that ends in the middle of a character is
reported. -/
theorem path_through_truncated_file_leaves_command :
    let bytes : Bytes := [0x61, 0xE2, 0x82]
    let tree : Tree := ⟨.directory [("a.monkey", .file bytes)], []⟩
    let path : Path := .ofText "a.monkey"
    let through : Path := .ofText "a.monkey/b"
    Leaves tree ["a.monkey/b", "--strict"] (.file through .notDirectory) ∧
      (run tree.read ["a.monkey/b", "--strict"]).ending = .failed (.file through .notDirectory) ∧
      settings ["--strict", "a.monkey/"] = .ok ⟨.file path, false, true⟩ ∧
      (∀ text, ¬ tree.Holds path (Utf8.encode text)) ∧ (∀ cause, ¬ tree.Bars path cause) ∧
      run tree.read ["--strict", "a.monkey/"] =
        .returned "[monkey-lex:error] not valid UTF-8: a.monkey (unexpected end of data)\n" 1 := by
  intro bytes tree path through
  have hbytes : ∀ text, bytes ≠ Utf8.encode text :=
    Utf8.FirstFault.ne_encode
      ⟨"a", [0xE2, 0x82], rfl, .unexpectedEnd ⟨'€', [0xAC], by decide, rfl⟩⟩
  have hread : tree.read path = .ok bytes := rfl
  have hholds : ∀ text, ¬ tree.Holds path (Utf8.encode text) := by
    intro text hholds
    rw [Tree.read_eq_ok_iff.mpr hholds] at hread
    exact hbytes text (Except.ok.inj hread).symm
  have hbars : ∀ cause, ¬ tree.Bars path cause := by
    intro cause hbars
    rw [hbars.read_eq] at hread
    cases hread
  have hleaves : Leaves tree ["a.monkey/b", "--strict"] (.file through .notDirectory) :=
    .file (s := ⟨.file through, false, true⟩) rfl rfl
      ((Tree.read_eq_error_iff (by decide)).mp rfl)
  obtain ⟨hending, _⟩ := failures_leave_command_iff tree ["a.monkey/b", "--strict"]
  obtain ⟨_, _, _, hmessage⟩ := failures_leave_command_iff tree ["--strict", "a.monkey/"]
  have hsettings : settings ["--strict", "a.monkey/"] = .ok ⟨.file path, false, true⟩ := rfl
  refine ⟨hleaves, (hending _).mpr hleaves, hsettings, hholds, hbars, ?_⟩
  rcases hmessage _ path hsettings rfl hholds hbars with hmissing | ⟨reason, hmalformed⟩
  · exact absurd hmissing (by decide +kernel)
  · cases reason with
    | unexpectedEnd => exact hmalformed
    | invalidStart | invalidContinuation => exact absurd hmalformed (by decide +kernel)

/-- A directory is no text, but no message says so. -/
theorem directory_leaves_command :
    let tree : Tree := ⟨.directory [("d", .directory [])], []⟩
    let path : Path := .ofText "d"
    settings ["d"] = .ok ⟨.file path, false, false⟩ ∧
      (∀ text, ¬ tree.Holds path (Utf8.encode text)) ∧
      run tree.read ["d"] = .failed [] (.file path .isDirectory) := by
  intro tree path
  have hread : tree.read path = .error .isDirectory := rfl
  refine ⟨rfl, ?_, rfl⟩
  intro text hholds
  rw [Tree.read_eq_ok_iff.mpr hholds] at hread
  cases hread

end Lex
end Command
end MonkeyLexis
