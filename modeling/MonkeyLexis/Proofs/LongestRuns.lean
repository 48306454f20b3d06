import MonkeyLexis.Proofs.Restart

/-!
# Longest runs

From any place a cursor takes the longest run of characters of one class, be it empty
or all that is left, and moves by its length. A run behind characters of its own class
belongs to one longer run, so it makes no difference whether the digits at the start of
a word are taken first, or whether blanks are skipped more than once.
-/

namespace MonkeyLexis

open Alphabet

/-- The longest of the pieces at the start of `t` that consist of `p`-characters. -/
structure IsLongestRun (p : Char → Bool) (t w : Text) : Prop where
  initial : w <+: t
  all : ∀ c ∈ w, p c
  longest : ∀ v, v <+: t → (∀ c ∈ v, p c) → v.length ≤ w.length

section

variable {p : Char → Bool} {t w v r : Text}

theorem IsLongestRun.unique (hw : IsLongestRun p t w) (hv : IsLongestRun p t v) : w = v := by
  have hlength : w.length = v.length :=
    Nat.le_antisymm (hv.longest w hw.initial hw.all) (hw.longest v hv.initial hv.all)
  have hprefix : w <+: v :=
    List.prefix_of_prefix_length_le hw.initial hv.initial (Nat.le_of_eq hlength)
  exact hprefix.eq_of_length hlength

/-- A run is the longest if what stands behind it does not continue it. -/
theorem isLongestRun_append_iff :
    IsLongestRun p (w ++ r) w ↔ (∀ c ∈ w, p c) ∧ ∀ c ∈ r.head?, ¬ p c := by
  constructor
  · intro h
    refine ⟨h.all, ?_⟩
    intro c hc hpc
    obtain ⟨rest, rfl⟩ := List.head?_eq_some_iff.mp hc
    have hall : ∀ d ∈ w ++ [c], p d :=
      List.forall_mem_append.mpr ⟨h.all, List.forall_mem_singleton.mpr hpc⟩
    have hle := h.longest (w ++ [c]) ⟨rest, by simp⟩ hall
    rw [List.length_append, List.length_singleton] at hle
    exact absurd hle (Nat.not_succ_le_self w.length)
  · rintro ⟨hw, hr⟩
    exact ⟨List.prefix_append w r, hw, fun v hv hall => length_le_of_prefix_append hw hr hv hall⟩

theorem IsLongestRun.behind (hw : ∀ c ∈ w, p c) (hv : IsLongestRun p t v) :
    IsLongestRun p (w ++ t) (w ++ v) := by
  obtain ⟨r, rfl⟩ := hv.initial
  obtain ⟨hall, hhead⟩ := isLongestRun_append_iff.mp hv
  rw [← List.append_assoc]
  exact isLongestRun_append_iff.mpr ⟨List.forall_mem_append.mpr ⟨hw, hall⟩, hhead⟩

end

namespace Cursor

variable {p q : Char → Bool}

theorem run_append_ahead_passRun (p : Char → Bool) (c : Cursor) :
    c.run p ++ (c.passRun p).ahead = c.ahead := by
  rw [ahead_passRun]
  exact List.takeWhile_append_dropWhile

theorem isLongestRun_run (p : Char → Bool) (c : Cursor) : IsLongestRun p c.ahead (c.run p) := by
  have hhead : ∀ char ∈ (c.passRun p).ahead.head?, ¬ p char := by
    intro char hchar
    rw [ahead_passRun] at hchar
    have hnot := List.head?_dropWhile_not p c.ahead
    rw [hchar] at hnot
    simpa using hnot
  have hrun : IsLongestRun p (c.run p ++ (c.passRun p).ahead) (c.run p) :=
    isLongestRun_append_iff.mpr ⟨fun _ h => List.mem_takeWhile_imp h, hhead⟩
  rwa [run_append_ahead_passRun] at hrun

theorem position_passRun (p : Char → Bool) (c : Cursor) :
    (c.passRun p).position = c.position + (c.run p).length := by
  have hle : (c.run p).length ≤ c.ahead.length := (c.isLongestRun_run p).initial.length_le
  rw [passRun, position_pass, Nat.min_eq_left hle]

theorem run_append_run (h : ∀ char, q char → p char) (c : Cursor) :
    c.run q ++ (c.passRun q).run p = c.run p := by
  have hfirst : ∀ char ∈ c.run q, p char := fun char hchar =>
    h char ((c.isLongestRun_run q).all char hchar)
  have hboth := ((c.passRun q).isLongestRun_run p).behind hfirst
  rw [run_append_ahead_passRun] at hboth
  exact hboth.unique (c.isLongestRun_run p)

theorem passRun_passRun (h : ∀ char, q char → p char) (c : Cursor) :
    (c.passRun q).passRun p = c.passRun p := by
  calc
    (c.passRun q).passRun p
      = c.pass ((c.run q).length + ((c.passRun q).run p).length) := pass_pass _ _ c
    _ = c.passRun p := by rw [← List.length_append, run_append_run h, passRun]

theorem next_skipBlanks (c : Cursor) : c.skipBlanks.next = c.next := by
  have htwice : c.skipBlanks.skipBlanks = c.skipBlanks := passRun_passRun (fun _ h => h) c
  rw [next, next, htwice]

end Cursor

namespace SharedCursor

/-- From `s` on, a cursor in `source`, exactly `w` is taken, which is the longest run of
`p`-characters there. As many single steps lead to `t`. -/
structure Takes (p : Char → Bool) (source : Text) (s : SharedCursor) (w : Text)
    (t : SharedCursor) : Prop where
  longest : IsLongestRun p (source.drop s.cursor.position) w
  position_eq : t.cursor.position = s.cursor.position + w.length
  eq_after : t = s.after (List.replicate w.length .advance)

theorem after_advances (s : SharedCursor) (n : Nat) :
    s.after (List.replicate n .advance) = { s with cursor := s.cursor.pass n } := by
  induction n generalizing s with
  | zero => rfl
  | succ n ih =>
    rw [List.replicate_succ, after_cons, ih, Nat.add_comm n]
    exact congrArg (SharedCursor.mk · s.exhausted) (Cursor.pass_pass 1 n s.cursor)

theorem takes_take {source : Text} {s : SharedCursor} (h : s.cursor.source = source)
    (p : Char → Bool) : s.Takes p source (s.take p).1 (s.take p).2 := by
  refine ⟨?_, s.cursor.position_passRun p, (s.after_advances _).symm⟩
  rw [← h, ← s.cursor.ahead_eq_drop]
  exact s.cursor.isLongestRun_run p

theorem take_take {p q : Char → Bool} (h : ∀ char, q char → p char) (s : SharedCursor) :
    s.take p = ((s.take q).1 ++ ((s.take q).2.take p).1, ((s.take q).2.take p).2) := by
  have htext := Cursor.run_append_run h s.cursor
  have hcursor := Cursor.passRun_passRun h s.cursor
  simp only [take, htext, hcursor]

/-- The next token is the same after any number of skips. -/
theorem serve_next_after_skips (s : SharedCursor) (n : Nat) :
    (s.after (List.replicate n .skipBlanks)).serve .next = s.serve .next := by
  induction n generalizing s with
  | zero => rfl
  | succ n ih =>
    have hnext : (s.serve .skipBlanks).2.cursor.next = s.cursor.next := s.cursor.next_skipBlanks
    rw [List.replicate_succ, after_cons, ih, serve, hnext]
    rfl

theorem start_after_indexed (source : Text) (requests : List Request) :
    (SharedIndex.start source >>= (·.after requests)) =
      .ok ((start source).after requests).indexed := by
  rw [start_indexed]
  exact after_indexed _ requests

end SharedCursor

/-- Wherever a cursor has got to, it takes the longest run of word characters or of digits from its
position on, or skips the longest run of blanks, and moves by the length of the run. Taking the
digits and then a word takes the same as taking the word at once, and skipping blanks any number of
times makes no difference to the next token. A cursor by index, which reads one character at a time
until one does not belong to the run, does all of it alike. -/
theorem longest_runs_are_taken (source : Text) (before : List Request) :
    let s := (SharedCursor.start source).after before
    (∃ w t, s.serve .takeWord = (.text w, t) ∧ s.Takes isWordChar source w t) ∧
      (∃ w t, s.serve .takeDigits = (.text w, t) ∧ s.Takes isDigit source w t) ∧
      (∃ w t, s.serve .skipBlanks = (.done, t) ∧ s.Takes isBlank source w t) ∧
      (∃ digits t w u, s.serve .takeDigits = (.text digits, t) ∧ t.serve .takeWord = (.text w, u) ∧
        s.serve .takeWord = (.text (digits ++ w), u)) ∧
      (∀ n, (s.after (List.replicate n .skipBlanks)).serve .next = s.serve .next) ∧
      (SharedIndex.start source >>= (·.after before)) = .ok s.indexed ∧
      ∀ request, s.indexed.serve request =
        .ok ((s.serve request).1, (s.serve request).2.indexed) := by
  intro s
  have hsource : s.cursor.source = source := SharedCursor.source_after _ before
  have hdigit : ∀ c, isDigit c → isWordChar c := by
    intro c hc
    simp [isWordChar, hc]
  refine ⟨?_, ?_, ?_, ?_, s.serve_next_after_skips, SharedCursor.start_after_indexed source before,
    s.serve_indexed⟩
  · exact ⟨_, _, rfl, SharedCursor.takes_take hsource isWordChar⟩
  · exact ⟨_, _, rfl, SharedCursor.takes_take hsource isDigit⟩
  · exact ⟨_, _, rfl, SharedCursor.takes_take hsource isBlank⟩
  · have htake := SharedCursor.take_take hdigit s
    refine ⟨_, _, _, _, rfl, rfl, ?_⟩
    rw [SharedCursor.serve, htake]
    rfl

end MonkeyLexis
