import Mathlib.Data.List.TakeWhile
import MonkeyLexis.Command.Lex
import MonkeyLexis.Text.Utf8.RoundTrip

/-!
# Command lines with one source

A command line that gives one source, among flags in any order and number, is read as
that source with these flags. The source is a file, named by a plain word, or the text
behind `--expr=`, which is a text unless it consists of two dashes alone. The command
then lists the text; in a file its line ends are unified before.
-/

namespace MonkeyLexis
namespace Command
namespace Lex

open CommandLine

inductive Flag where
  | showEnd
  | strict
  deriving DecidableEq, Repr

namespace Flag

def switch : Flag → Switch Choice
  | .showEnd => ⟨.showEnd, none, "show-eof", false⟩
  | .strict => ⟨.strict, none, "strict", false⟩

def word (f : Flag) : Text := f.switch.spelling

def classified (f : Flag) : Text × Word Choice := (f.word, .option (.named f.switch none))

def event (f : Flag) : Event Choice := .flag f.switch.id

theorem classify_word (f : Flag) : Word.classify switches f.word = .ok f.classified.2 := by
  cases f <;> rfl

end Flag

/-- One word among flags. -/
def wordsAround (before : List Flag) (word : Text) (after : List Flag) : List Text :=
  before.map Flag.word ++ word :: after.map Flag.word

def expressionWord (t : Text) : Text := "--expr=" ++ t

/-- The word gives the source. -/
inductive Names : Text → Source → Prop
  | file {word : Text} (h : Word.classify switches word = .ok .plain) :
      Names word (.file (.ofText word))
  | expression (t : Text) : Names (expressionWord t) (.expression (Expansion.attachedText? t))

theorem classify_expressionWord (t : Text) :
    Word.classify switches (expressionWord t) =
      .ok (.option (.named expressionSwitch (some t))) :=
  rfl

variable {word : Text} {source : Source} {before after : List Flag}

theorem Names.ne_dashes (h : Names word source) : word ≠ ['-', '-'] := by
  cases h with
  | file h =>
    rintro rfl
    cases h
  | expression t =>
    intro h
    cases h

theorem cutAtDashes_of_not_mem {words : List Text} (h : ['-', '-'] ∉ words) :
    cutAtDashes words = (words, none) := by
  have hall : ∀ word ∈ words, (word != ['-', '-']) = true := by
    intro word hword
    apply bne_iff_ne.mpr
    rintro rfl
    exact h hword
  have hdrop : words.dropWhile (· != ['-', '-']) = [] := List.dropWhile_eq_nil_iff.mpr hall
  unfold cutAtDashes
  rw [hdrop]

theorem dashes_not_mem_wordsAround (h : word ≠ ['-', '-']) :
    ['-', '-'] ∉ wordsAround before word after := by
  have hflags : ∀ flags : List Flag, ['-', '-'] ∉ flags.map Flag.word := by
    intro flags hmem
    obtain ⟨f, _, hf⟩ := List.mem_map.mp hmem
    cases f <;> cases hf
  unfold wordsAround
  simp [hflags, Ne.symm h]

theorem mapM_classify_flags (flags : List Flag) (words : List Text) :
    (flags.map Flag.word ++ words).mapM (fun w => (Word.classify switches w).map (w, ·)) =
      (words.mapM fun w => (Word.classify switches w).map (w, ·)).map
        (flags.map Flag.classified ++ ·) := by
  induction flags with
  | nil =>
    simp only [List.map_nil, List.nil_append]
    cases words.mapM (fun w => (Word.classify switches w).map (w, ·)) <;> rfl
  | cons f flags ih =>
    rw [List.map_cons, List.cons_append, List.mapM_cons, ih, f.classify_word]
    cases words.mapM (fun w => (Word.classify switches w).map (w, ·)) <;> rfl

theorem readWords_flag (after? : Option (List Text)) (room : Room) (f : Flag)
    (words : List (Text × Word Choice)) :
    readWords switches after? room (f.classified :: words) =
      (readWords switches after? room.settled words).push f.event := by
  cases f <;> cases room <;> rfl

theorem readWords_free_flags (flags : List Flag) (words : List (Text × Word Choice)) :
    readWords switches none .free (flags.map Flag.classified ++ words) =
      (readWords switches none .free words).prepend (flags.map Flag.event) := by
  induction flags with
  | nil => rfl
  | cons f flags ih =>
    rw [List.map_cons, List.cons_append, readWords_flag]
    exact congrArg (Reading.push f.event) ih

theorem readWords_flags (room : Room) (flags : List Flag) :
    readWords switches none room (flags.map Flag.classified) = ⟨flags.map Flag.event, none⟩ := by
  induction flags generalizing room with
  | nil => cases room <;> rfl
  | cons f flags ih =>
    rw [List.map_cons, readWords_flag, ih]
    rfl

def Source.event (word : Text) : Source → Event Choice
  | .file _ => .operand word
  | .expression text? => .value .expression text?

/-- The word that gives a source is read as saying so, and the flags behind it as flags. -/
theorem Names.exists_class (h : Names word source) (flags : List Flag) :
    ∃ c, Word.classify switches word = .ok c ∧
      readWords switches none .free ((word, c) :: flags.map Flag.classified) =
        ⟨source.event word :: flags.map Flag.event, none⟩ := by
  cases h with
  | file h =>
    refine ⟨.plain, h, ?_⟩
    exact congrArg (Reading.push (.operand word)) (readWords_flags .justFilled flags)
  | expression t =>
    refine ⟨_, classify_expressionWord t, ?_⟩
    exact congrArg (Reading.prepend [.value .expression (Expansion.attachedText? t)])
      (readWords_flags .free flags)

theorem read_wordsAround (h : Names word source) (before after : List Flag) :
    CommandLine.read switches .free (wordsAround before word after) =
      ⟨before.map Flag.event ++ source.event word :: after.map Flag.event, none⟩ := by
  obtain ⟨c, hc, hread⟩ := h.exists_class after
  have hcut : cutAtDashes (wordsAround before word after) = (wordsAround before word after, none) :=
    cutAtDashes_of_not_mem (dashes_not_mem_wordsAround h.ne_dashes)
  have hafter : (after.map Flag.word).mapM (fun w => (Word.classify switches w).map (w, ·)) =
      .ok (after.map Flag.classified) := by
    have hflags := mapM_classify_flags after []
    rw [List.append_nil] at hflags
    rw [hflags]
    exact congrArg Except.ok (List.append_nil _)
  have hclasses : (wordsAround before word after).mapM
        (fun w => (Word.classify switches w).map (w, ·)) =
      .ok (before.map Flag.classified ++ (word, c) :: after.map Flag.classified) := by
    unfold wordsAround
    rw [mapM_classify_flags, List.mapM_cons, hc, hafter]
    rfl
  unfold CommandLine.read
  rw [hcut]
  simp only [hclasses]
  rw [readWords_free_flags, hread]
  rfl

def Draft.withFlags (d : Draft) (flags : List Flag) : Draft :=
  { d with
    showEnd := d.showEnd || decide (Flag.showEnd ∈ flags)
    strict := d.strict || decide (Flag.strict ∈ flags) }

theorem foldlM_act_flags (flags : List Flag) (d : Draft) :
    (flags.map Flag.event).foldlM act d = .ok (d.withFlags flags) := by
  induction flags generalizing d with
  | nil => simp [Draft.withFlags, pure, Except.pure]
  | cons f flags ih =>
    have hact : act d f.event = .ok (d.withFlags [f]) := by
      cases f <;> simp [act, Flag.event, Flag.switch, Draft.withFlags]
    have hcons : (d.withFlags [f]).withFlags flags = d.withFlags (f :: flags) := by
      simp [Draft.withFlags, Bool.or_assoc]
    rw [List.map_cons, List.foldlM_cons, hact, ← hcons]
    exact ih (d.withFlags [f])

theorem act_source (h : Names word source) {d : Draft} (hd : d.source? = none) :
    act d (source.event word) = .ok { d with source? := some source } := by
  cases h <;> simp [act, Source.event, hd]

theorem foldlM_act_around (h : Names word source) (before after : List Flag) :
    (before.map Flag.event ++ source.event word :: after.map Flag.event).foldlM act {} =
      .ok ⟨some source, decide (Flag.showEnd ∈ before ++ after),
        decide (Flag.strict ∈ before ++ after)⟩ := by
  have hsource : act (Draft.withFlags {} before) (source.event word) =
      .ok { Draft.withFlags {} before with source? := some source } := act_source h rfl
  rw [List.foldlM_append, foldlM_act_flags]
  show List.foldlM act _ (source.event word :: after.map Flag.event) = _
  rw [List.foldlM_cons, hsource]
  refine (foldlM_act_flags after _).trans ?_
  simp [Draft.withFlags]

theorem leftovers_around (word : Text) (source : Source) (before after : List Flag) :
    (Reading.mk (before.map Flag.event ++ source.event word :: after.map Flag.event)
      none).leftovers = [] := by
  unfold Reading.leftovers
  apply List.filterMap_eq_nil_iff.mpr
  intro event hevent
  rcases List.mem_append.mp hevent with hflag | hevent
  · obtain ⟨f, _, rfl⟩ := List.mem_map.mp hflag
    rfl
  · rcases List.mem_cons.mp hevent with rfl | hflag
    · cases source <;> rfl
    · obtain ⟨f, _, rfl⟩ := List.mem_map.mp hflag
      rfl

/-- The flags around the word are all in force, wherever they stand. -/
theorem settings_wordsAround (h : Names word source) (before after : List Flag) :
    settings (wordsAround before word after) =
      .ok ⟨source, decide (Flag.showEnd ∈ before ++ after), decide (Flag.strict ∈ before ++ after)⟩ := by
  unfold settings
  rw [read_wordsAround h]
  simp only [Reading.interpret, foldlM_act_around h, leftovers_around]
  rfl

/-- The listing of some entries and the verdict on them. -/
def verdict (strict : Bool) (es : List Entry) : Outcome :=
  if strict && Listing.illegalCount es != 0 then
    .returned (Listing.written es ++
      report (Numeral.decimal (Listing.illegalCount es) ++ " illegal character(s)")) 1
  else .returned (Listing.written es) 0

variable {content : Path → Except FileSystem.ReadFailure Bytes} {t : Text}

theorem run_file (hword : Word.classify switches word = .ok .plain)
    (hcontent : content (.ofText word) = .ok (Utf8.encode t)) (before after : List Flag) :
    run content (wordsAround before word after) =
      verdict (decide (Flag.strict ∈ before ++ after))
        (Listing.entries (decide (Flag.showEnd ∈ before ++ after))
          (Text.lines (Text.unifyLineEnds t))) := by
  rw [run_of_file (settings_wordsAround (.file hword) before after) rfl, hcontent, listFile,
    Utf8.decode_encode]
  rfl

theorem run_expression (h : t ≠ ['-', '-']) (before after : List Flag) :
    run content (wordsAround before (expressionWord t) after) =
      verdict (decide (Flag.strict ∈ before ++ after))
        (Listing.entries (decide (Flag.showEnd ∈ before ++ after)) (Text.lines t)) :=
  run_of_expression (settings_wordsAround (.expression t) before after)
    (congrArg Source.expression (if_neg h))

theorem run_expression_dashes (before after : List Flag) :
    run content (wordsAround before (expressionWord ['-', '-']) after) =
      .failed [] .expressionMissing := by
  unfold run plan
  rw [settings_wordsAround (.expression ['-', '-'])]
  rfl

end Lex
end Command
end MonkeyLexis
