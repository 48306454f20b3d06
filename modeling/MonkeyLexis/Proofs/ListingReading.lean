import MonkeyLexis.Proofs.LineTokens
import MonkeyLexis.Proofs.QuotedReading
import MonkeyLexis.Proofs.Records

/-!
# Reading listings

The records of a listing give back its entries, since a kind is told by its name and
a literal by its quoted form. With the end tokens listed, the tokens of a line reach
up to the next end token. So a listing with end tokens tells how many lines there
were and which tokens each of them has, and nothing more.
-/

namespace MonkeyLexis

theorem mapM_map_eq_some {α β : Type} {write : α → β} {read : β → Option α}
    (h : ∀ a, read (write a) = some a) (as : List α) : (as.map write).mapM read = some as := by
  induction as with
  | nil => rfl
  | cons a as ih => simp [h, ih]

namespace Entry

def ofFields? (f : Fields) : Option Entry := do
  let kind ← Kind.ofName? f.kind
  let literal ← Quoted.decode? f.literal
  return ⟨f.number, ⟨kind, literal⟩⟩

theorem ofFields?_fields (e : Entry) : ofFields? e.fields = some e := by
  simp [ofFields?, fields, Quoted.decode?_encode]

/-- The row is made of the record's fields. The first colon ends the number and the first tab ends
the kind. -/
def IsRow (e : Entry) (row : Text) : Prop :=
  ∃ number kind literal, row = number ++ ':' :: (kind ++ '\t' :: literal) ∧
    ':' ∉ number ∧ '\t' ∉ number ++ ':' :: kind ∧ '\n' ∉ row ∧
    number = Numeral.decimal e.line ∧ kind = e.token.kind.name ∧
    literal = Quoted.encode e.token.literal

theorem isRow_shown (e : Entry) : e.IsRow e.shown := by
  have htab : '\t' ∉ Numeral.decimal e.line ++ ':' :: e.token.kind.name := by
    intro h
    rcases List.mem_append.mp h with h | h
    · exact Numeral.not_mem_decimal (by decide) e.line h
    · rcases List.mem_cons.mp h with h | h
      · exact absurd h (by decide)
      · exact e.token.kind.isPrintableText_name.not_mem (by decide) h
  exact ⟨_, _, _, rfl, Numeral.not_mem_decimal (by decide) e.line, htab,
    e.not_mem_shown (by decide) (by decide), rfl, rfl, rfl⟩

end Entry

namespace Listing

def entries? (listing : Text) : Option (List Entry) := (records listing).mapM Entry.ofFields?

theorem entries?_written (es : List Entry) : entries? (written es) = some es := by
  unfold entries?
  rw [records_written]
  exact mapM_map_eq_some Entry.ofFields?_fields es

theorem written_injective {es fs : List Entry} (h : written es = written fs) : es = fs := by
  have hread := congrArg entries? h
  rw [entries?_written, entries?_written] at hread
  exact Option.some.inj hread

/-- A listing is a sequence of rows, each ended by a line feed. -/
theorem exists_rows_written (es : List Entry) :
    ∃ rows : List Text, written es = rows.flatMap (· ++ ['\n']) ∧ List.Forall₂ Entry.IsRow es rows := by
  refine ⟨es.map Entry.shown, written_eq es, ?_⟩
  apply List.forall₂_map_right_iff.mpr
  exact List.forall₂_same.mpr fun e _ => e.isRow_shown

/-- The tokens of the lines, each of which ends with an end token. -/
def cutAtEnds (ts : List Token) : List (List Token) :=
  (ts.splitOnP fun token => !token.isProper).dropLast.map (· ++ [Token.endOfInput])

theorem splitOnP_tokens_append (line : Text) (ts : List Token) :
    (tokens line ++ ts).splitOnP (fun token => !token.isProper) =
      lexemes line :: ts.splitOnP fun token => !token.isProper := by
  have hproper : ∀ token ∈ lexemes line, (!token.isProper) = false := by
    intro token h
    simpa [Token.isProper] using kind_ne_endOfInput_of_mem_lexemes h
  have hsplit := List.splitOnP_append_cons_of_forall_mem hproper Token.endOfInput rfl ts
  simpa [tokens] using hsplit

theorem splitOnP_flatMap_tokens (lines : List Text) :
    (lines.flatMap tokens).splitOnP (fun token => !token.isProper) =
      lines.map lexemes ++ [[]] := by
  induction lines with
  | nil => rfl
  | cons line lines ih =>
    rw [List.flatMap_cons, splitOnP_tokens_append, ih]
    rfl

theorem cutAtEnds_flatMap_tokens (lines : List Text) :
    cutAtEnds (lines.flatMap tokens) = lines.map tokens := by
  unfold cutAtEnds
  rw [splitOnP_flatMap_tokens, List.dropLast_concat, List.map_map]
  rfl

/-- The tokens of each line of a listing with end tokens. -/
def tokenLists? (listing : Text) : Option (List (List Token)) :=
  (entries? listing).map fun es => cutAtEnds (es.map Entry.token)

theorem tokenLists?_written_entries (lines : List Text) :
    tokenLists? (written (entries true lines)) = some (lines.map tokens) := by
  have htokens : (entries true lines).map Entry.token = lines.flatMap tokens :=
    map_token_entriesFrom true 1 lines
  unfold tokenLists?
  rw [entries?_written, Option.map_some, htokens, cutAtEnds_flatMap_tokens]

theorem map_tokens_eq_of_entries_eq {xs ys : List Text} (h : entries true xs = entries true ys) :
    xs.map tokens = ys.map tokens := by
  have hread := congrArg (fun es => tokenLists? (written es)) h
  simp only [tokenLists?_written_entries] at hread
  exact Option.some.inj hread

theorem entriesFrom_congr {showEnd : Bool} {xs ys : List Text}
    (h : xs.map (lineTokens showEnd) = ys.map (lineTokens showEnd)) (first : Nat) :
    entriesFrom showEnd first xs = entriesFrom showEnd first ys := by
  induction xs generalizing ys first with
  | nil =>
    cases ys with
    | nil => rfl
    | cons y ys => cases h
  | cons x xs ih =>
    cases ys with
    | nil => cases h
    | cons y ys =>
      obtain ⟨hline, hlines⟩ := List.cons.inj h
      unfold entriesFrom
      rw [hline, ih hlines]

/-- A listing with end tokens tells the tokens of every line, whatever the lines are made of. It
consists of rows, one for each entry and each on a line of its own. -/
theorem listing_determines_tokens (lines : List Text) :
    let listing := written (entries true lines)
    tokenLists? listing = some (lines.map tokens) ∧
      (∀ others, written (entries true others) = listing ↔ others.map tokens = lines.map tokens) ∧
      ∃ rows : List Text, listing = rows.flatMap (· ++ ['\n']) ∧
        List.Forall₂ Entry.IsRow (entries true lines) rows := by
  intro listing
  refine ⟨tokenLists?_written_entries lines, ?_, exists_rows_written _⟩
  intro others
  constructor
  · intro h
    exact map_tokens_eq_of_entries_eq (written_injective h)
  · intro h
    have hlisted : others.map (lineTokens true) = lines.map (lineTokens true) := h
    exact congrArg written (entriesFrom_congr hlisted 1)

end Listing
end MonkeyLexis
