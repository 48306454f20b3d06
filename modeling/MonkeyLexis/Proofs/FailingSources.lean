import MonkeyLexis.Command.Lex
import MonkeyLexis.Proofs.FollowedPaths
import MonkeyLexis.Proofs.StrictDecoding

/-!
# Sources that fail

A file is listed when all of it has been read and decoded, and not before. If a
directory lacks a name of the path, or if the bytes are not those of a text, one line
says so and the status is 1. A path that leads to nothing for another cause, say one
through a file, is not reported: the command fails and has written nothing. In none of
these cases does it matter what stands before the fault or which flags are given.
-/

namespace MonkeyLexis
namespace Command
namespace Lex

open CommandLine FileSystem

def missingMessage (path : Path) : Text :=
  "[monkey-lex:error] file not found: " ++ path.text ++ "\n"

def malformedMessage (path : Path) (reason : Utf8.Reason) : Text :=
  "[monkey-lex:error] not valid UTF-8: " ++ path.text ++ " (" ++ reason.message ++ ")\n"

theorem report_missing (path : Path) :
    report ("file not found: " ++ path.text) = missingMessage path := by
  unfold report missingMessage
  rw [← List.append_assoc]
  rfl

theorem report_malformed (path : Path) (reason : Utf8.Reason) :
    report ("not valid UTF-8: " ++ path.text ++ " (" ++ reason.message ++ ")") =
      malformedMessage path reason := by
  unfold report malformedMessage
  simp only [List.append_assoc]
  rw [← List.append_assoc]
  rfl

variable {s : Settings} {path : Path}

theorem listFile_of_notFound :
    listFile s path (.error .notFound) = .returned (missingMessage path) 1 := by
  rw [← report_missing]
  rfl

theorem listFile_of_failure {failure : ReadFailure} (h : failure ≠ .notFound) :
    listFile s path (.error failure) = .failed [] (.file path failure) := by
  cases failure with
  | notFound => exact absurd rfl h
  | isDirectory | notDirectory | nameTooLong | nullInPath => rfl

theorem listFile_of_firstFault {bytes : Bytes} {reason : Utf8.Reason}
    (h : Utf8.FirstFault bytes reason) :
    listFile s path (.ok bytes) = .returned (malformedMessage path reason) 1 := by
  obtain ⟨m, hm, rfl⟩ := Utf8.firstFault_iff.mp h
  rw [listFile, hm, ← report_malformed]

/-- Without a text one line is written, or the failure is one that the command does not report. -/
theorem listFile_of_no_text {content : Except ReadFailure Bytes}
    (h : ∀ t, content ≠ .ok (Utf8.encode t)) :
    (∃ failure, failure ≠ .notFound ∧ content = .error failure) ∨
      listFile s path content = .returned (missingMessage path) 1 ∨
      ∃ reason, listFile s path content = .returned (malformedMessage path reason) 1 := by
  cases content with
  | error failure =>
    by_cases hfailure : failure = .notFound
    · subst hfailure
      exact .inr (.inl listFile_of_notFound)
    · exact .inl ⟨failure, hfailure, rfl⟩
  | ok bytes =>
    have hbytes : ∀ t, bytes ≠ Utf8.encode t := fun t ht => h t (congrArg _ ht)
    obtain ⟨reason, hfault⟩ := Utf8.exists_firstFault hbytes
    exact .inr (.inr ⟨reason, listFile_of_firstFault ((hfault reason).mpr rfl)⟩)

/-- A path is reported as missing if a directory on its way lacks a name, and a file that is no text
is reported with the reason of its first fault. These lines are the whole output, and the status is
1. All other paths that lead to nothing make the command fail. Whenever there is no text at the
path, at most one of the two lines is written and no token. -/
theorem failing_source_is_not_listed {words : List Text} (h : settings words = .ok s)
    (hs : s.source = .file path) (tree : Tree) :
    let outcome := run tree.read words
    (tree.Lacks path → ¬ tree.Exists path ∧ outcome = .returned (missingMessage path) 1) ∧
      (¬ tree.Exists path → ¬ tree.Lacks path →
        ∃ failure ∈ [ReadFailure.notDirectory, .nameTooLong, .nullInPath],
          outcome = .failed [] (.file path failure)) ∧
      (∀ bytes, tree.Holds path bytes → (∀ t, bytes ≠ Utf8.encode t) →
        ∃ reason, (∀ other, Utf8.FirstFault bytes other ↔ other = reason) ∧
          outcome = .returned (malformedMessage path reason) 1) ∧
      ((∀ t, ¬ tree.Holds path (Utf8.encode t)) →
        (∃ failure, outcome = .failed [] (.file path failure)) ∨
          outcome = .returned (missingMessage path) 1 ∨
          ∃ reason, outcome = .returned (malformedMessage path reason) 1) := by
  intro outcome
  have hrun : outcome = listFile s path (tree.read path) := run_of_file h hs
  rw [hrun]
  refine ⟨?lacks, ?nothing, ?malformed, ?silent⟩
  case lacks =>
    intro hlacks
    rw [Tree.read_eq_notFound_iff.mpr hlacks]
    exact ⟨hlacks.not_exists, listFile_of_notFound⟩
  case nothing =>
    intro hexists hlacks
    rcases Tree.lacks_or_read_of_not_exists hexists with h | ⟨failure, hmem, hread⟩
    · exact absurd h hlacks
    · have hfailure : failure ≠ .notFound := by
        rintro rfl
        exact absurd hmem (by decide)
      rw [hread]
      exact ⟨failure, hmem, listFile_of_failure hfailure⟩
  case malformed =>
    intro bytes hholds hbytes
    obtain ⟨reason, hfault⟩ := Utf8.exists_firstFault hbytes
    refine ⟨reason, hfault, ?_⟩
    rw [Tree.read_eq_ok_iff.mpr hholds]
    exact listFile_of_firstFault ((hfault reason).mpr rfl)
  case silent =>
    intro htext
    have hcontent : ∀ t, tree.read path ≠ .ok (Utf8.encode t) :=
      fun t hread => htext t (Tree.read_eq_ok_iff.mp hread)
    rcases listFile_of_no_text hcontent with ⟨failure, hne, hread⟩ | hline
    · rw [hread]
      exact .inl ⟨failure, listFile_of_failure hne⟩
    · exact .inr hline

/-- One file is missing, and one ends in the middle of a character behind an illegal one. -/
theorem missing_and_truncated_sources_are_not_listed :
    let bytes : Bytes := [0x61, 0x40, 0x0A, 0xE2, 0x82]
    let tree : Tree := ⟨.directory [("a.monkey", .file bytes)], []⟩
    tree.Lacks (.ofText "b.monkey") ∧
      run tree.read ["--strict", "b.monkey"] =
        .returned "[monkey-lex:error] file not found: b.monkey\n" 1 ∧
      tree.Holds (.ofText "a.monkey") bytes ∧ Utf8.FirstFault bytes .unexpectedEnd ∧
      run tree.read ["a.monkey", "--show-eof", "--strict"] =
        .returned "[monkey-lex:error] not valid UTF-8: a.monkey (unexpected end of data)\n" 1 := by
  intro bytes tree
  have hfirst : settings ["--strict", "b.monkey"] =
      .ok ⟨.file (.ofText "b.monkey"), false, true⟩ := rfl
  have hsecond : settings ["a.monkey", "--show-eof", "--strict"] =
      .ok ⟨.file (.ofText "a.monkey"), true, true⟩ := rfl
  have hlacks : tree.Lacks (.ofText "b.monkey") := Tree.read_eq_notFound_iff.mp rfl
  have hholds : tree.Holds (.ofText "a.monkey") bytes := Tree.read_eq_ok_iff.mp rfl
  have hfault : Utf8.FirstFault bytes .unexpectedEnd :=
    ⟨"a@\n", [0xE2, 0x82], rfl, .unexpectedEnd ⟨'€', [0xAC], by decide, rfl⟩⟩
  obtain ⟨hmissing, _⟩ := failing_source_is_not_listed hfirst rfl tree
  obtain ⟨_, _, hmalformed, _⟩ := failing_source_is_not_listed hsecond rfl tree
  obtain ⟨reason, hreason, hrun⟩ := hmalformed bytes hholds hfault.ne_encode
  refine ⟨hlacks, (hmissing hlacks).2, hholds, hfault, ?_⟩
  rw [hrun, ← (hreason _).mp hfault]
  rfl

/-- Nothing is at a path through a file, and the command fails. -/
theorem path_through_file_fails :
    let tree : Tree := ⟨.directory [("a.monkey", .file (Utf8.encode "x"))], []⟩
    let path : Path := .ofText "a.monkey/b"
    ¬ tree.Exists path ∧
      settings ["a.monkey/b"] = .ok ⟨.file path, false, false⟩ ∧
      run tree.read ["a.monkey/b"] = .failed [] (.file path .notDirectory) := by
  intro tree path
  have hread : tree.read path = .error .notDirectory := rfl
  refine ⟨?_, rfl, rfl⟩
  rw [Tree.exists_iff_read, hread]
  simp

end Lex
end Command
end MonkeyLexis
