import Mathlib.Data.List.Infix
import MonkeyLexis.Command.Lex
import MonkeyLexis.Proofs.Lines
import MonkeyLexis.Proofs.ReadEvents

/-!
# Exactly one source

The option for a text may be used again and again, the last use counts; the operand is
given once at most. A command line is accepted if nothing is wrong with its words, no
help is asked for, no word is left over, and either the option was used or the operand
was given, but not both. Only an operand makes the command read a file. The option may
be left without a text, but this takes a word that attaches two dashes to it.
-/

namespace MonkeyLexis
namespace Command
namespace Lex

open CommandLine

variable {words : List Text} {s : Settings} {d : Draft} {events : List (Event Choice)}

def given? : Event Choice → Option (Option Text)
  | .value .expression text? => some text?
  | _ => none

def texts (events : List (Event Choice)) : List (Option Text) := events.filterMap given?

def operands (events : List (Event Choice)) : List Text := events.filterMap Event.operand?

/-- The source that the events name: the text given last, or the operand. -/
def sourceOf? (events : List (Event Choice)) : Option Source :=
  match (texts events).getLast?, (operands events).getLast? with
  | some text?, none => some (.expression text?)
  | none, some word => some (.file (.ofText word))
  | _, _ => none

/-- The events name a text or a file or neither of them. -/
def Exclusive (events : List (Event Choice)) : Prop := texts events = [] ∨ operands events = []

/-- What events choose that do not exclude each other. -/
def Draft.ofEvents (events : List (Event Choice)) : Draft :=
  ⟨sourceOf? events, decide (.flag .showEnd ∈ events), decide (.flag .strict ∈ events)⟩

variable {event : Event Choice}

theorem texts_concat (events : List (Event Choice)) (event : Event Choice) :
    texts (events ++ [event]) = texts events ++ (given? event).toList := by
  unfold texts
  cases h : given? event <;> simp [h]

theorem operands_concat (events : List (Event Choice)) (event : Event Choice) :
    operands (events ++ [event]) = operands events ++ event.operand?.toList := by
  unfold operands
  cases h : event.operand? <;> simp [h]

theorem sourceOf?_of_no_operand (h : operands events = []) :
    sourceOf? events = (texts events).getLast?.map .expression := by
  unfold sourceOf?
  rw [h]
  cases (texts events).getLast? <;> rfl

theorem sourceOf?_of_no_text (h : texts events = []) :
    sourceOf? events = (operands events).getLast?.map fun word => .file (.ofText word) := by
  unfold sourceOf?
  rw [h]
  cases (operands events).getLast? <;> rfl

def Draft.withEvent (d : Draft) (event : Event Choice) : Draft :=
  { d with
    showEnd := d.showEnd || decide (event = .flag .showEnd)
    strict := d.strict || decide (event = .flag .strict) }

theorem ofEvents_concat (hgiven : given? event = none) (hoperand : event.operand? = none) :
    Draft.ofEvents (events ++ [event]) = (Draft.ofEvents events).withEvent event := by
  simp [Draft.ofEvents, Draft.withEvent, sourceOf?, texts_concat, operands_concat, hgiven,
    hoperand, eq_comm]

theorem exclusive_concat_iff (hgiven : given? event = none) (hoperand : event.operand? = none) :
    Exclusive (events ++ [event]) ↔ Exclusive events := by
  simp [Exclusive, texts_concat, operands_concat, hgiven, hoperand]

theorem act_withEvent (hgiven : given? event = none) (hoperand : event.operand? = none)
    (hhelp : event ≠ .flag .help) (d : Draft) : act d event = .ok (d.withEvent event) := by
  rcases event with (_ | _ | _ | _) | ⟨_ | _ | _ | _, _⟩ | _ | _ <;>
    simp_all [act, given?, Event.operand?, Draft.withEvent]

theorem act_value_iff (h : Exclusive events) (text? : Option Text) :
    act (.ofEvents events) (.value .expression text?) = .ok d ↔
      Exclusive (events ++ [.value .expression text?]) ∧
        d = .ofEvents (events ++ [.value .expression text?]) := by
  have hexclusive : Exclusive (events ++ [.value .expression text?]) ↔ operands events = [] := by
    simp [Exclusive, texts_concat, operands_concat, given?, Event.operand?]
  rw [hexclusive]
  by_cases hnone : operands events = []
  · have hnow : Draft.ofEvents (events ++ [.value .expression text?]) =
        { Draft.ofEvents events with source? := some (.expression text?) } := by
      simp [Draft.ofEvents, sourceOf?, texts_concat, operands_concat, given?, Event.operand?, hnone]
    have hact : act (.ofEvents events) (.value .expression text?) =
        .ok { Draft.ofEvents events with source? := some (.expression text?) } := by
      simp only [act, Draft.ofEvents, sourceOf?_of_no_operand hnone]
      cases (texts events).getLast? <;> rfl
    rw [hact, hnow, Except.ok.injEq, eq_comm, and_iff_right hnone]
  · have hword := List.getLast?_eq_some_getLast hnone
    have hact : act (.ofEvents events) (.value .expression text?) =
        .error (.misuse (.conflict expressionSwitch.label pathLabel)) := by
      simp only [act, Draft.ofEvents, sourceOf?_of_no_text (h.resolve_right hnone), hword]
      rfl
    simp [hact, hnone]

theorem act_operand_iff (h : Exclusive events) (word : Text) :
    act (.ofEvents events) (.operand word) = .ok d ↔
      Exclusive (events ++ [.operand word]) ∧ d = .ofEvents (events ++ [.operand word]) := by
  have hexclusive : Exclusive (events ++ [.operand word]) ↔ texts events = [] := by
    simp [Exclusive, texts_concat, operands_concat, given?, Event.operand?]
  rw [hexclusive]
  by_cases hnone : texts events = []
  · have hnow : Draft.ofEvents (events ++ [.operand word]) =
        { Draft.ofEvents events with source? := some (.file (.ofText word)) } := by
      simp [Draft.ofEvents, sourceOf?, texts_concat, operands_concat, given?, Event.operand?, hnone]
    have hact : act (.ofEvents events) (.operand word) =
        .ok { Draft.ofEvents events with source? := some (.file (.ofText word)) } := by
      simp only [act, Draft.ofEvents, sourceOf?_of_no_text hnone]
      cases (operands events).getLast? <;> rfl
    rw [hact, hnow, Except.ok.injEq, eq_comm, and_iff_right hnone]
  · have htext := List.getLast?_eq_some_getLast hnone
    have hact : act (.ofEvents events) (.operand word) =
        .error (.misuse (.conflict pathLabel expressionSwitch.label)) := by
      simp only [act, Draft.ofEvents, sourceOf?_of_no_operand (h.resolve_left hnone), htext]
      rfl
    simp [hact, hnone]

theorem act_ofEvents_iff (h : Exclusive events) (event : Event Choice) :
    act (.ofEvents events) event = .ok d ↔
      event ≠ .flag .help ∧ Exclusive (events ++ [event]) ∧ d = .ofEvents (events ++ [event]) := by
  have hother : given? event = none → event.operand? = none → event ≠ .flag .help →
      (act (.ofEvents events) event = .ok d ↔ event ≠ .flag .help ∧
        Exclusive (events ++ [event]) ∧ d = .ofEvents (events ++ [event])) := by
    intro hgiven hoperand hhelp
    rw [act_withEvent hgiven hoperand hhelp, exclusive_concat_iff hgiven hoperand,
      ofEvents_concat hgiven hoperand, Except.ok.injEq, eq_comm, and_iff_right hhelp,
      and_iff_right h]
  cases event with
  | flag id =>
    cases id with
    | help => simp [act]
    | expression | showEnd | strict => exact hother rfl rfl (by simp)
  | value id text? =>
    cases id with
    | expression => simpa using act_value_iff h text?
    | help | showEnd | strict => exact hother rfl rfl (by simp)
  | operand word => simpa using act_operand_iff h word
  | leftover word => exact hother rfl rfl (by simp)

theorem Exclusive.of_concat (h : Exclusive (events ++ [event])) : Exclusive events := by
  rcases h with h | h
  · rw [texts_concat] at h
    exact .inl (List.append_eq_nil_iff.mp h).1
  · rw [operands_concat] at h
    exact .inr (List.append_eq_nil_iff.mp h).1

/-- The draft after all events; it is lost to a request for help and to a conflict only. -/
theorem foldlM_act_eq_ok_iff :
    events.foldlM act {} = .ok d ↔
      (.flag .help ∉ events ∧ Exclusive events) ∧ d = .ofEvents events := by
  refine foldlM_eq_ok_iff (fun events => .flag .help ∉ events ∧ Exclusive events) .ofEvents
    ⟨List.not_mem_nil, .inl rfl⟩ rfl ?earlier ?act events d
  case earlier =>
    rintro events event ⟨hhelp, hexclusive⟩
    exact ⟨fun hmem => hhelp (List.mem_append_left _ hmem), hexclusive.of_concat⟩
  case act =>
    rintro events event d ⟨hhelp, hexclusive⟩
    rw [act_ofEvents_iff hexclusive, List.mem_append, not_or, List.mem_singleton,
      and_iff_right hhelp, and_assoc, ne_comm]

/-- What the events of a command line are. -/
def eventsOf (words : List Text) : List (Event Choice) :=
  (CommandLine.read switches .free words).events

/-- The words are accepted exactly if nothing is wrong with them, no help is asked for, no word is
left over and exactly one source is named. -/
theorem settings_eq_ok_iff :
    settings words = .ok s ↔
      (CommandLine.read switches .free words).error? = none ∧ .flag .help ∉ eventsOf words ∧
        (CommandLine.read switches .free words).leftovers = [] ∧ Exclusive (eventsOf words) ∧
        sourceOf? (eventsOf words) = some s.source ∧
        s.showEnd = decide (.flag .showEnd ∈ eventsOf words) ∧
        s.strict = decide (.flag .strict ∈ eventsOf words) := by
  unfold settings eventsOf
  generalize CommandLine.read switches .free words = reading
  cases h : reading.interpret act .misuse {} with
  | error stop =>
    refine iff_of_false (by simp [h]) ?_
    rintro ⟨herror, hhelp, _, hexclusive, _⟩
    rw [interpret_eq_ok_iff.mpr ⟨herror, foldlM_act_eq_ok_iff.mpr ⟨⟨hhelp, hexclusive⟩, rfl⟩⟩] at h
    cases h
  | ok draft =>
    obtain ⟨herror, hfold⟩ := interpret_eq_ok_iff.mp h
    obtain ⟨⟨hhelp, hexclusive⟩, rfl⟩ := foldlM_act_eq_ok_iff.mp hfold
    simp only [h, herror, hhelp, hexclusive, Draft.ofEvents, not_false_eq_true, true_and]
    obtain ⟨source, showEnd, strict⟩ := s
    cases sourceOf? reading.events with
    | none => simp
    | some found =>
      cases reading.leftovers with
      | nil => simp [eq_comm]
      | cons word words => simp

/-- The words that attach two dashes to the option for a text. -/
def dashedWords : List Text := ["-e--", "-e=--", "--e=--", "--ex=--", "--exp=--", "--expr=--"]

theorem eq_expressionSwitch {option : Switch Choice} (h : option ∈ switches)
    (hid : option.id = .expression) : option = expressionSwitch := by
  simp only [switches, List.mem_cons, List.not_mem_nil, or_false] at h
  rcases h with rfl | rfl | rfl | rfl
  case inr.inl => rfl
  all_goals cases hid

theorem id_eq_help {option : Switch Choice} (h : option ∈ switches)
    (hwants : option.wantsValue = false) {letter : Char} (hletter : option.letter? = some letter) :
    option.id = .help := by
  simp only [switches, List.mem_cons, List.not_mem_nil, or_false] at h
  rcases h with rfl | rfl | rfl | rfl
  case inl => rfl
  case inr.inl => cases hwants
  all_goals cases hletter

theorem mem_dashedWords {word : Text} {use : Use Choice} {option : Switch Choice}
    (hword : Spells switches word use) (hid : option.id = .expression)
    (huse : Expansion.Dashed option use) : word ∈ dashedWords := by
  cases hword with
  | @named name found value? hcandidates =>
    cases huse
    obtain ⟨hmem, hprefix⟩ := prefix_of_candidates hcandidates
    have hname : name ∈ [[], ['e'], ['e', 'x'], ['e', 'x', 'p'], ['e', 'x', 'p', 'r']] := by
      rw [eq_expressionSwitch hmem hid] at hprefix
      exact (List.mem_inits _ _).mpr hprefix
    have hne : name ≠ [] := by
      rintro rfl
      cases hcandidates
    have hnames := (List.mem_cons.mp hname).resolve_left hne
    simp only [List.mem_cons, List.not_mem_nil, or_false] at hnames
    rcases hnames with rfl | rfl | rfl | rfl <;> decide
  | @lettered letter found following hmem hletter =>
    have hfound : found = expressionSwitch := by
      cases huse <;> exact eq_expressionSwitch hmem hid
    rw [hfound] at hletter
    cases hletter
    cases huse <;> decide

theorem sourceOf?_eq_expression_iff {text? : Option Text} :
    sourceOf? events = some (.expression text?) ↔
      (texts events).getLast? = some text? ∧ operands events = [] := by
  rw [← List.getLast?_eq_none_iff]
  unfold sourceOf?
  cases (texts events).getLast? <;> cases (operands events).getLast? <;> simp

theorem sourceOf?_eq_file_iff {path : Path} :
    sourceOf? events = some (.file path) ↔
      texts events = [] ∧ (operands events).getLast?.map Path.ofText = some path := by
  rw [← List.getLast?_eq_none_iff]
  unfold sourceOf?
  cases (texts events).getLast? <;> cases (operands events).getLast? <;> simp

/-- On an accepted command line a text is missing only behind two dashes. A letter in front of the
one for the text would be a request for help. -/
theorem exists_dashedWord (h : settings words = .ok s) (hs : s.source = .expression none) :
    ∃ word ∈ words, word ∈ dashedWords := by
  obtain ⟨herror, hhelp, _, _, hsource, _⟩ := settings_eq_ok_iff.mp h
  rw [hs] at hsource
  have hlast := List.mem_of_getLast? (sourceOf?_eq_expression_iff.mp hsource).1
  obtain ⟨event, hmem, hgiven⟩ := List.mem_filterMap.mp hlast
  have hevent : event = .value .expression none := by
    rcases event with _ | ⟨_ | _ | _ | _, _⟩ | _ | _ <;> simp_all [given?]
  cases says_of_mem_read hmem with
  | operand | leftover => cases hevent
  | next => simp at hevent
  | own huse hexpansion hasked =>
    rw [hevent] at hasked
    obtain ⟨other, hother, hsubset⟩ := grants_read herror huse
    obtain ⟨word, hword, hclass⟩ := huse
    have hspells := spells_of_classify hclass
    rcases Expansion.dashed_of_value_none hexpansion hasked with
      ⟨option, hid, hdashed⟩ | ⟨option, following, rfl, hwants⟩
    · exact ⟨word, mem_of_mem_before hword, mem_dashedWords hspells hid hdashed⟩
    · cases hspells with
      | lettered _ hmem hletter =>
        have hflag := hsubset (Expansion.flag_mem_of_ofUse hwants hother)
        rw [id_eq_help hmem hwants hletter] at hflag
        exact absurd hflag hhelp

theorem plan_of_stop {stop : Stop} (h : settings words = .error stop) :
    plan words = .finished (manual.outcome stop) := by
  simp only [plan, h]

theorem plan_of_text {text : Text} (h : settings words = .ok s)
    (hs : s.source = .expression (some text)) : plan words = .finished (listText s text) := by
  simp only [plan, h, hs]

theorem plan_of_no_text (h : settings words = .ok s) (hs : s.source = .expression none) :
    plan words = .finished (.failed [] .expressionMissing) := by
  simp only [plan, h, hs]

theorem plan_of_file {path : Path} (h : settings words = .ok s) (hs : s.source = .file path) :
    plan words = .reading path (listFile s path) := by
  simp only [plan, h, hs]

/-- Help is a success, a usage error is none, and neither lists anything. -/
theorem outcome_of_stop (stop : Stop) :
    manual.outcome stop = ⟨manual.help, [], .stopped 0⟩ ∨
      ∃ report, manual.outcome stop = ⟨[], report, .stopped 2⟩ := by
  cases stop with
  | help => exact .inl rfl
  | misuse error => exact .inr ⟨_, rfl⟩

theorem listText_nil (s : Settings) : listText s [] = .returned [] 0 := by
  cases h : s.strict <;>
    simp [listText, h, Text.lines_nil, Listing.entries, Listing.entriesFrom, Listing.illegalCount,
      Listing.written]

theorem mem_of_mem_operands {word : Text} (h : word ∈ operands (eventsOf words)) :
    word ∈ words := by
  obtain ⟨event, hevent, hword⟩ := List.mem_filterMap.mp h
  have hoperand : event = .operand word := by
    cases event <;> simp_all [Event.operand?]
  cases says_of_mem_read hevent with
  | operand hmem =>
    cases hoperand
    exact hmem
  | leftover | next => cases hoperand
  | own _ hexpansion hasked =>
    rw [hoperand] at hasked
    exact (Expansion.isAsked_of_ofUse hexpansion hasked).elim

theorem operands_eq_singleton {path : Path}
    (hsource : sourceOf? (eventsOf words) = some (.file path)) :
    ∃ word ∈ words, texts (eventsOf words) = [] ∧ operands (eventsOf words) = [word] ∧
      path = .ofText word := by
  obtain ⟨htexts, hpath⟩ := sourceOf?_eq_file_iff.mp hsource
  obtain ⟨word, hlast, rfl⟩ := Option.map_eq_some_iff.mp hpath
  have hlength : (operands (eventsOf words)).length ≤ 1 :=
    length_operands_read_le_one switches .free words
  obtain ⟨before, hwords⟩ := List.getLast?_eq_some_iff.mp hlast
  have hbefore : before = [] := by
    rw [hwords, List.length_append, List.length_singleton] at hlength
    exact List.length_eq_zero_iff.mp (by omega)
  rw [hbefore] at hwords
  exact ⟨word, mem_of_mem_operands (List.mem_of_getLast? hlast), htexts, hwords, rfl⟩

theorem exists_source_iff :
    (Exclusive events ∧ ∃ source, sourceOf? events = some source) ↔
      texts events ≠ [] ∧ operands events = [] ∨ texts events = [] ∧ operands events ≠ [] := by
  unfold Exclusive
  by_cases htexts : texts events = [] <;> by_cases hoperands : operands events = []
  · simp [htexts, hoperands, sourceOf?_of_no_text htexts]
  · simp [htexts, hoperands, sourceOf?_of_no_text htexts,
      List.getLast?_eq_some_getLast hoperands]
  · simp [htexts, hoperands, sourceOf?_of_no_operand hoperands,
      List.getLast?_eq_some_getLast htexts]
  · simp [htexts, hoperands]

theorem exists_settings_iff :
    (∃ s, settings words = .ok s) ↔
      (CommandLine.read switches .free words).error? = none ∧ .flag .help ∉ eventsOf words ∧
        (CommandLine.read switches .free words).leftovers = [] ∧
        (texts (eventsOf words) ≠ [] ∧ operands (eventsOf words) = [] ∨
          texts (eventsOf words) = [] ∧ operands (eventsOf words) ≠ []) := by
  rw [← exists_source_iff]
  constructor
  · rintro ⟨s, h⟩
    obtain ⟨herror, hhelp, hleftovers, hexclusive, hsource, _⟩ := settings_eq_ok_iff.mp h
    exact ⟨herror, hhelp, hleftovers, hexclusive, _, hsource⟩
  · rintro ⟨herror, hhelp, hleftovers, hexclusive, source, hsource⟩
    exact ⟨⟨source, _, _⟩,
      settings_eq_ok_iff.mpr ⟨herror, hhelp, hleftovers, hexclusive, hsource, rfl, rfl⟩⟩

/-- Every command line stops before anything is read or listed, with the status 0 for help and 2 for
a usage error, or names exactly one source: a text and no operand, or one of its words as the
operand and no text. It does the latter exactly if nothing is wrong with its words. The text that
was given last is listed, also if it is empty, and no file is read; a file is read only without a
text. The one exception are two dashes: attached to the option they are no text, and the command
fails. -/
theorem command_line_names_one_source (words : List Text) :
    let reading := CommandLine.read switches .free words
    let given := texts reading.events
    let named := operands reading.events
    ((∃ s, settings words = .ok s) ↔
        reading.error? = none ∧ .flag .help ∉ reading.events ∧ reading.leftovers = [] ∧
          (given ≠ [] ∧ named = [] ∨ given = [] ∧ named ≠ [])) ∧
      ((∃ stop outcome, settings words = .error stop ∧ plan words = .finished outcome ∧
          (outcome = ⟨manual.help, [], .stopped 0⟩ ∨
            ∃ report, outcome = ⟨[], report, .stopped 2⟩)) ∨
        (∃ s text?, settings words = .ok s ∧ s.source = .expression text? ∧
          given.getLast? = some text? ∧ named = [] ∧
          match text? with
          | some text =>
            plan words = .finished (listText s text) ∧
              (text = [] → listText s text = .returned [] 0)
          | none =>
            plan words = .finished (.failed [] .expressionMissing) ∧
              ∃ word ∈ words, word ∈ dashedWords) ∨
        ∃ s, ∃ word ∈ words, settings words = .ok s ∧ s.source = .file (.ofText word) ∧
          given = [] ∧ named = [word] ∧
          plan words = .reading (.ofText word) (listFile s (.ofText word))) := by
  intro reading given named
  refine ⟨exists_settings_iff, ?_⟩
  cases h : settings words with
  | error stop =>
    left
    exact ⟨stop, _, rfl, plan_of_stop h, outcome_of_stop stop⟩
  | ok s =>
    right
    obtain ⟨_, _, _, _, hsource, _⟩ := settings_eq_ok_iff.mp h
    cases hs : s.source with
    | expression text? =>
      left
      rw [hs] at hsource
      obtain ⟨htext, hoperands⟩ := sourceOf?_eq_expression_iff.mp hsource
      refine ⟨s, text?, rfl, hs, htext, hoperands, ?_⟩
      cases text? with
      | some text =>
        refine ⟨plan_of_text h hs, ?_⟩
        rintro rfl
        exact listText_nil s
      | none => exact ⟨plan_of_no_text h hs, exists_dashedWord h hs⟩
    | file path =>
      right
      rw [hs] at hsource
      obtain ⟨word, hword, htexts, hoperands, rfl⟩ := operands_eq_singleton hsource
      exact ⟨s, word, hword, rfl, hs, htexts, hoperands, plan_of_file h hs⟩

/-- Two dashes behind the option are no text. -/
theorem attached_dashes_are_no_text :
    let words : List Text := ["--expr=--"]
    let content : Path → Except FileSystem.ReadFailure Bytes := fun _ => .error .notFound
    settings words = .ok ⟨.expression none, false, false⟩ ∧
      run content words = .failed [] .expressionMissing :=
  ⟨rfl, rfl⟩

end Lex
end Command
end MonkeyLexis
