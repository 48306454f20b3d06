import MonkeyLexis.Proofs.ForeignCharacters
import MonkeyLexis.Proofs.SharedStreams

/-!
# Listings line by line

A listing can be written in one pass: every token is counted and written as soon as
its line's cursor gives it, and the end token ends the line whether or not it is
written. Such a pass writes one block of records for each line. So a listing of more
lines is a listing of the first ones and, with greater numbers, one of the others,
and listing the end tokens adds one record to each block and changes nothing else.
-/

namespace MonkeyLexis

open Listing

/-- What has been written, and how many illegal tokens have been met. -/
structure Tally where
  output : Text
  illegal : Nat
  deriving DecidableEq, Repr

namespace Tally

def write (e : Entry) (t : Tally) : Tally := { t with output := t.output ++ e.record }

def count (token : Token) (t : Tally) : Tally :=
  if token.kind = .illegal then { t with illegal := t.illegal + 1 } else t

/-- The tokens that a cursor gives until the end token, which is written on request. -/
def addLine (showEnd : Bool) (number : Nat) (c : Cursor) (t : Tally) : Tally :=
  if _h : c.next.1.kind = .endOfInput then
    if showEnd then t.write ⟨number, c.next.1⟩ else t
  else addLine showEnd number c.next.2 ((t.count c.next.1).write ⟨number, c.next.1⟩)
termination_by c.ahead.length
decreasing_by exact Cursor.length_ahead_next_lt _h

def addLines (showEnd : Bool) : (first : Nat) → List Text → Tally → Tally
  | _, [], t => t
  | first, line :: lines, t =>
    addLines showEnd (first + 1) lines (t.addLine showEnd first (.start line))

def ofLines (showEnd : Bool) (lines : List Text) : Tally := addLines showEnd 1 lines ⟨[], 0⟩

def add (es : List Entry) (t : Tally) : Tally :=
  ⟨t.output ++ written es, t.illegal + illegalCount es⟩

@[simp] theorem add_nil (t : Tally) : t.add [] = t := by
  simp [add, written, illegalCount]

theorem add_append (es fs : List Entry) (t : Tally) : t.add (es ++ fs) = (t.add es).add fs := by
  simp [add, written_append, illegalCount_append, Nat.add_assoc]

theorem write_count (number : Nat) (token : Token) (t : Tally) :
    (t.count token).write ⟨number, token⟩ = t.add [⟨number, token⟩] := by
  by_cases h : token.kind = .illegal <;> simp [count, write, add, written, illegalCount, h]

theorem write_endOfInput (number : Nat) (t : Tally) :
    t.write ⟨number, Token.endOfInput⟩ = t.add [⟨number, Token.endOfInput⟩] := by
  simp [write, add, written, illegalCount, Token.endOfInput]

end Tally

namespace Listing

theorem lineTokens_of_end {c : Cursor} (showEnd : Bool) (h : c.next.1.kind = .endOfInput) :
    c.next.1 = Token.endOfInput ∧
      lineTokens showEnd c.ahead = if showEnd then [Token.endOfInput] else [] := by
  rcases c.next_cases with ⟨hnil, hend, _⟩ | ⟨hkind, _⟩
  · refine ⟨hend, ?_⟩
    simp [lineTokens, tokens, hnil]
  · exact absurd h hkind

theorem lineTokens_of_ne_end {c : Cursor} (showEnd : Bool) (h : c.next.1.kind ≠ .endOfInput) :
    lineTokens showEnd c.ahead = c.next.1 :: lineTokens showEnd c.next.2.ahead := by
  rcases c.next_cases with ⟨_, hend, _⟩ | ⟨_, hcons⟩
  · rw [hend] at h
    exact absurd rfl h
  · cases showEnd <;> simp [lineTokens, tokens, hcons]

end Listing

namespace Tally

/-- One line. The induction follows the cursor, with the tally so far arbitrary. -/
theorem addLine_eq (showEnd : Bool) (number : Nat) (c : Cursor) (t : Tally) :
    t.addLine showEnd number c = t.add ((lineTokens showEnd c.ahead).map (Entry.mk number)) := by
  fun_induction addLine showEnd number c t with
  | case1 c t h hshow =>
    obtain ⟨hend, htokens⟩ := lineTokens_of_end showEnd h
    rw [htokens, hend, if_pos hshow]
    exact write_endOfInput number t
  | case2 c t h hshow =>
    rw [(lineTokens_of_end showEnd h).2, if_neg hshow]
    exact t.add_nil.symm
  | case3 c t h ih =>
    rw [ih, lineTokens_of_ne_end showEnd h, write_count, ← add_append]
    rfl

theorem addLines_eq (showEnd : Bool) (first : Nat) (lines : List Text) (t : Tally) :
    t.addLines showEnd first lines = t.add (entriesFrom showEnd first lines) := by
  induction lines generalizing first t with
  | nil => exact t.add_nil.symm
  | cons line lines ih =>
    rw [addLines, ih, addLine_eq, ← add_append]
    rfl

theorem ofLines_eq (showEnd : Bool) (lines : List Text) :
    ofLines showEnd lines =
      ⟨written (entries showEnd lines), illegalCount (entries showEnd lines)⟩ := by
  rw [ofLines, addLines_eq, add, List.nil_append, Nat.zero_add]
  rfl

end Tally

/-- The entry `n` lines further down. -/
def Entry.moved (n : Nat) (e : Entry) : Entry := { e with line := e.line + n }

def Fields.moved (n : Nat) (f : Fields) : Fields := { f with number := f.number + n }

namespace Listing

/-- The listing with every number increased by `n`. -/
def moved (n : Nat) (listing : Text) : Text :=
  (records listing).flatMap fun f => (f.moved n).record

theorem moved_written (n : Nat) (es : List Entry) :
    moved n (written es) = written (es.map (Entry.moved n)) := by
  rw [moved, records_written, List.flatMap_map, written, List.flatMap_map]
  rfl

theorem entriesFrom_add (showEnd : Bool) (first n : Nat) (lines : List Text) :
    entriesFrom showEnd (first + n) lines =
      (entriesFrom showEnd first lines).map (Entry.moved n) := by
  induction lines generalizing first with
  | nil => rfl
  | cons line lines ih =>
    rw [entriesFrom, entriesFrom, Nat.add_right_comm, ih, List.map_append, List.map_map]
    rfl

theorem illegalCount_map_moved (n : Nat) (es : List Entry) :
    illegalCount (es.map (Entry.moved n)) = illegalCount es :=
  List.countP_map

def recordsOf (number : Nat) (listing : Text) : List Fields :=
  (records listing).filter (·.number == number)

def block (showEnd : Bool) (number : Nat) (line : Text) : List Entry :=
  ((tokens line).filter fun token => showEnd || token.isProper).map (Entry.mk number)

theorem block_eq (showEnd : Bool) (number : Nat) (line : Text) :
    block showEnd number line = (lineTokens showEnd line).map (Entry.mk number) := by
  cases showEnd with
  | true => simp [block, lineTokens]
  | false =>
    simp only [block, lineTokens, tokens, Bool.false_or, List.filter_append,
      filter_isProper_lexemes]
    simp [Token.isProper, Token.endOfInput]

theorem entriesFrom_eq_flatMap (showEnd : Bool) (first : Nat) (lines : List Text) :
    entriesFrom showEnd first lines =
      (lines.zipIdx first).flatMap fun (line, number) => block showEnd number line := by
  induction lines generalizing first with
  | nil => rfl
  | cons line lines ih => simp [entriesFrom, List.zipIdx_cons, block_eq, ih]

theorem filter_line_eq_entriesFrom (showEnd : Bool) (first : Nat) (lines : List Text) (i : Nat)
    (h : i < lines.length) :
    (entriesFrom showEnd first lines).filter (·.line == first + i) =
      block showEnd (first + i) lines[i] := by
  induction lines generalizing first i with
  | nil => exact absurd h (Nat.not_lt_zero i)
  | cons line lines ih =>
    rw [entriesFrom, List.filter_append, ← block_eq]
    cases i with
    | zero =>
      have hlater : (entriesFrom showEnd (first + 1) lines).filter (·.line == first) = [] := by
        apply List.filter_eq_nil_iff.mpr
        intro e he
        have hle := first_le_line he
        simp only [beq_iff_eq]
        omega
      have hline : (block showEnd first line).filter (·.line == first) =
          block showEnd first line := by
        apply List.filter_eq_self.mpr
        intro e he
        obtain ⟨token, _, rfl⟩ := List.mem_map.mp he
        exact beq_self_eq_true first
      rw [Nat.add_zero, hline, hlater, List.append_nil]
      rfl
    | succ i =>
      have hline : (block showEnd first line).filter (·.line == first + (i + 1)) = [] := by
        apply List.filter_eq_nil_iff.mpr
        intro e he
        obtain ⟨token, _, rfl⟩ := List.mem_map.mp he
        simp
      have hlater := ih (first + 1) i (Nat.lt_of_succ_lt_succ h)
      rw [Nat.add_right_comm, Nat.add_assoc] at hlater
      rw [hline, List.nil_append, hlater]
      rfl

theorem recordsOf_written (number : Nat) (es : List Entry) :
    recordsOf number (written es) = (es.filter (·.line == number)).map Entry.fields := by
  rw [recordsOf, records_written, List.filter_map]
  rfl

theorem recordsOf_entries (showEnd : Bool) (lines : List Text) (i : Nat) (h : i < lines.length) :
    recordsOf (i + 1) (written (entries showEnd lines)) =
      (block showEnd (i + 1) lines[i]).map Entry.fields := by
  rw [recordsOf_written, entries, Nat.add_comm i, filter_line_eq_entriesFrom showEnd 1 lines i h]

end Listing

def Fields.ofEnd (number : Nat) : Fields := ⟨number, "EOF", "''"⟩

/-- The record is that of an end token, as the name of its kind tells. -/
def Fields.isEnd (f : Fields) : Bool := f.kind == Kind.endOfInput.name

theorem Entry.isEnd_fields (e : Entry) : e.fields.isEnd = !e.token.isProper := by
  have hname : e.token.kind.name = Kind.endOfInput.name ↔ e.token.kind = .endOfInput :=
    ⟨fun h => Kind.name_injective h, congrArg Kind.name⟩
  rw [Bool.eq_iff_iff]
  simpa [Fields.isEnd, Entry.fields, Token.isProper] using hname

namespace Listing

def withoutEnds (listing : Text) : Text :=
  ((records listing).filter fun f => !f.isEnd).flatMap Fields.record

theorem withoutEnds_written (es : List Entry) :
    withoutEnds (written es) = written (es.filter (·.token.isProper)) := by
  simp only [withoutEnds, records_written, List.filter_map, Function.comp_def,
    Entry.isEnd_fields, Bool.not_not, List.flatMap_map]
  rfl

theorem filter_isProper_entriesFrom (first : Nat) (lines : List Text) :
    (entriesFrom true first lines).filter (·.token.isProper) = entriesFrom false first lines := by
  induction lines generalizing first with
  | nil => rfl
  | cons line lines ih =>
    have hline := filter_isProper_lineTokens true line
    simp only [entriesFrom, List.filter_append, List.filter_map, Function.comp_def, hline, ih]
    rfl

theorem illegalCount_entries_eq (showEnd : Bool) (lines : List Text) :
    illegalCount (entries showEnd lines) =
      (lines.flatMap lexemes).countP (·.kind == .illegal) := by
  rw [illegalCount_eq, filter_isProper_entries]

theorem length_illegalRecords_written (es : List Entry) :
    (illegalRecords (written es)).length = illegalCount es := by
  rw [illegalRecords_written, List.length_map, ← List.countP_eq_length_filter]
  rfl

theorem map_fields_block_true (number : Nat) (line : Text) :
    (block true number line).map Entry.fields =
      (block false number line).map Entry.fields ++ [Fields.ofEnd number] := by
  simp only [block_eq, lineTokens, tokens, if_true, List.map_append]
  rfl

theorem countP_isEnd_block (number : Nat) (line : Text) :
    ((block true number line).map Entry.fields).countP Fields.isEnd = 1 := by
  have hnone : ((block false number line).map Entry.fields).countP Fields.isEnd = 0 := by
    rw [List.countP_eq_zero]
    intro f hf
    obtain ⟨e, he, rfl⟩ := List.mem_map.mp hf
    obtain ⟨token, htoken, rfl⟩ := List.mem_map.mp he
    have hproper := (List.mem_filter.mp htoken).2
    rw [Bool.false_or] at hproper
    simp [Entry.isEnd_fields, hproper]
  rw [map_fields_block_true, List.countP_append, hnone]
  rfl

/-- One pass over lines writes a block of records for each of them, numbered from one, and a block
has one record for each token of its line. More lines go on behind the first ones with numbers that
are greater by as many. End tokens, if they are listed, stand once in every block, at its end;
without them the listing is the one that does not list them, and as many tokens are illegal. -/
theorem listing_line_by_line (showEnd : Bool) (xs ys : List Text) :
    let all := Tally.ofLines showEnd (xs ++ ys)
    let first := Tally.ofLines showEnd xs
    let second := Tally.ofLines showEnd ys
    let withEnds := Tally.ofLines true xs
    let plain := Tally.ofLines false xs
    all = ⟨first.output ++ moved xs.length second.output, first.illegal + second.illegal⟩ ∧
      first = ⟨written (entries showEnd xs), illegalCount (entries showEnd xs)⟩ ∧
      first.output = ((xs.zipIdx 1).flatMap fun (line, number) =>
        written (((tokens line).filter fun token => showEnd || token.isProper).map
          (Entry.mk number))) ∧
      (∀ i : Fin xs.length, recordsOf (i + 1) first.output =
        ((tokens xs[i]).filter fun token => showEnd || token.isProper).map
          fun token => (Entry.mk (i + 1) token).fields) ∧
      (∀ i : Fin xs.length,
        (recordsOf (i + 1) withEnds.output).countP Fields.isEnd = 1 ∧
          (recordsOf (i + 1) withEnds.output).getLast? = some (Fields.ofEnd (i + 1))) ∧
      withoutEnds withEnds.output = plain.output ∧
      withEnds.illegal = plain.illegal ∧
      first.illegal = (illegalRecords first.output).length := by
  intro all first second withEnds plain
  have hends (i : Fin xs.length) : recordsOf (i + 1) withEnds.output =
      (block true (i + 1) xs[i]).map Entry.fields := by
    rw [show withEnds = _ from Tally.ofLines_eq true xs]
    exact recordsOf_entries true xs i i.isLt
  refine ⟨?append, ?written, ?blocks, ?records, ?ends, ?deleted, ?count, ?illegal⟩
  case append =>
    simp only [all, first, second, Tally.ofLines_eq, entries, entriesFrom_append, written_append,
      illegalCount_append, entriesFrom_add, moved_written, illegalCount_map_moved]
  case written => exact Tally.ofLines_eq showEnd xs
  case blocks =>
    simp only [first, Tally.ofLines_eq, entries, entriesFrom_eq_flatMap]
    exact List.flatMap_assoc
  case records =>
    intro i
    rw [show first = _ from Tally.ofLines_eq showEnd xs]
    rw [recordsOf_entries showEnd xs i i.isLt, block, List.map_map]
    rfl
  case ends =>
    intro i
    rw [hends]
    refine ⟨countP_isEnd_block _ _, ?_⟩
    rw [map_fields_block_true]
    exact List.getLast?_concat
  case deleted =>
    simp only [withEnds, plain, Tally.ofLines_eq, withoutEnds_written, entries,
      filter_isProper_entriesFrom]
  case count => simp only [withEnds, plain, Tally.ofLines_eq, illegalCount_entries_eq]
  case illegal => simp only [first, Tally.ofLines_eq, length_illegalRecords_written]

end Listing
end MonkeyLexis
