import Mathlib.Data.List.Basic
import MonkeyLexis.Proofs.Lines
import MonkeyLexis.Session

/-!
# Sessions line by line

On an input that simply ends, a session is decided by the lines of its text. It
shows the prompt and the tokens of each line before the first `exit`, and the prompt
once more. Whether there is such a line decides how it ends.
-/

namespace MonkeyLexis
namespace Session

open Text Input

variable {prompt t : Text}

theorem run_of_ended {input : Input} (h : input.nextLine = .ended) :
    run prompt input = ⟨prompt, .inputEnded, []⟩ := by
  rw [run]
  split <;> simp_all

theorem run_of_content {input : Input} {line rest : Text}
    (h : input.nextLine = .content line rest) :
    run prompt input =
      if line = exitWord then ⟨prompt, .exited, rest⟩
      else
        let later := run prompt ⟨rest, input.fault?⟩
        { later with output := prompt ++ echo line ++ later.output } := by
  rw [run]
  split
  · next hl => simp [hl] at h
  · next hl => simp [hl] at h
  · next line rest hl =>
    rw [h] at hl
    cases hl
    by_cases hexit : line = exitWord <;> simp [reply?, hexit]

theorem run_ofText_nil (prompt : Text) : run prompt (ofText []) = ⟨prompt, .inputEnded, []⟩ :=
  run_of_ended rfl

theorem run_ofText_of_ne_nil (h : t ≠ []) :
    run prompt (ofText t) =
      if lineContent (firstLine t) = exitWord then ⟨prompt, .exited, afterLine t⟩
      else
        let later := run prompt (ofText (afterLine t))
        { later with output := prompt ++ echo (lineContent (firstLine t)) ++ later.output } :=
  run_of_content (if_neg h)

/-- The lines before the first `exit` are echoed, each behind a prompt. -/
theorem output_run_ofText (prompt t : Text) :
    (run prompt (ofText t)).output =
      ((lines t).take ((lines t).idxOf exitWord)).flatMap (fun line => prompt ++ echo line) ++
        prompt := by
  fun_induction lines t with
  | case1 => rw [run_ofText_nil]; rfl
  | case2 c rest ih =>
    rw [run_ofText_of_ne_nil (List.cons_ne_nil c rest)]
    split
    · next hexit => simp [hexit]
    · next hexit =>
      rw [List.idxOf_cons_ne _ hexit, List.take_succ_cons, List.flatMap_cons]
      simp only [ih, List.append_assoc]

theorem ending_run_ofText (prompt t : Text) :
    (run prompt (ofText t)).ending = if exitWord ∈ lines t then .exited else .inputEnded := by
  fun_induction lines t with
  | case1 => rw [run_ofText_nil]; rfl
  | case2 c rest ih =>
    rw [run_ofText_of_ne_nil (List.cons_ne_nil c rest)]
    split
    · next hexit => simp [hexit]
    · next hexit => simp [Ne.symm hexit, ih]

end Session
end MonkeyLexis
