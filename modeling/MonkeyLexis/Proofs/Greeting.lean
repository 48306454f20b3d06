import Mathlib.Data.List.Infix
import MonkeyLexis.Command.Interact
import MonkeyLexis.Proofs.ReadEvents

/-!
# What shows who the user is

The interactive command looks up who its user is for the greeting alone. Told not to
greet, it does the same for all users. Otherwise it does what it would do if told so,
behind the line that greets the user by name, however the session may end; only if the
look-up fails for an unforeseen cause, that failure is all there is, and nothing is read.
-/

namespace MonkeyLexis

namespace Identity

variable {i : Identity}

/-- The variable is not set or empty. -/
def Misses (i : Identity) (name : Text) : Prop :=
  ∀ value, i.environment.lookup name = some value → value = []

/-- The look-up finds this name: the first variable that is not empty tells it, or the account does,
or nobody can and the user is a stranger. -/
inductive Named (i : Identity) : Text → Prop
  | ofVariable {before after : List Text} {found name : Text}
      (hvariables : nameVariables = before ++ found :: after) (hbefore : ∀ v ∈ before, i.Misses v)
      (hvalue : i.environment.lookup found = some name) (hname : name ≠ []) : Named i name
  | ofAccount {name : Text} (hvariables : ∀ v ∈ nameVariables, i.Misses v)
      (haccount : i.account = .ok name) : Named i name
  | stranger (hvariables : ∀ v ∈ nameVariables, i.Misses v)
      (haccount : i.account = .error .missing ∨ i.account = .error .system) : Named i "stranger"

/-- The look-up fails for a cause that nobody foresees. -/
def Fails (i : Identity) (description : Text) : Prop :=
  (∀ v ∈ nameVariables, i.Misses v) ∧ i.account = .error (.other description)

theorem misses_iff {v : Text} :
    i.Misses v ↔ (i.environment.lookup v).filter (· != []) = none := by
  simp [Misses, Option.filter_eq_none_iff]

theorem variableName?_eq_none_iff :
    i.variableName? = none ↔ ∀ v ∈ nameVariables, i.Misses v := by
  simp only [variableName?, List.findSome?_eq_none_iff, misses_iff]

theorem variableName?_eq_some_iff {name : Text} :
    i.variableName? = some name ↔ ∃ before found after, nameVariables = before ++ found :: after ∧
      (i.environment.lookup found = some name ∧ name ≠ []) ∧ ∀ v ∈ before, i.Misses v := by
  simp only [variableName?, List.findSome?_eq_some_iff, misses_iff, Option.filter_eq_some_iff,
    bne_iff_ne, ne_eq]

theorem name_of_variable {name : Text} (h : i.variableName? = some name) : i.name = .ok name := by
  unfold Identity.name
  rw [h]

theorem Named.name_eq {name : Text} (h : i.Named name) : i.name = .ok name := by
  cases h with
  | ofVariable hvariables hbefore hvalue hname =>
    apply name_of_variable
    exact variableName?_eq_some_iff.mpr ⟨_, _, _, hvariables, ⟨hvalue, hname⟩, hbefore⟩
  | ofAccount hvariables haccount =>
    simp only [Identity.name, variableName?_eq_none_iff.mpr hvariables, haccount]
  | stranger hvariables haccount =>
    rcases haccount with haccount | haccount <;>
      simp only [Identity.name, variableName?_eq_none_iff.mpr hvariables, haccount]

theorem Fails.name_eq {description : Text} (h : i.Fails description) :
    i.name = .error description := by
  simp only [Identity.name, variableName?_eq_none_iff.mpr h.1, h.2]

theorem named_or_fails (i : Identity) :
    (∃ name, i.Named name) ∨ ∃ description, i.Fails description := by
  cases hvariable : i.variableName? with
  | some name =>
    obtain ⟨before, found, after, hvariables, ⟨hvalue, hname⟩, hbefore⟩ :=
      variableName?_eq_some_iff.mp hvariable
    exact .inl ⟨name, .ofVariable hvariables hbefore hvalue hname⟩
  | none =>
    have hvariables := variableName?_eq_none_iff.mp hvariable
    rcases haccount : i.account with (_ | _ | description) | name
    · exact .inl ⟨_, .stranger hvariables (.inl haccount)⟩
    · exact .inl ⟨_, .stranger hvariables (.inr haccount)⟩
    · exact .inr ⟨description, hvariables, haccount⟩
    · exact .inl ⟨name, .ofAccount hvariables haccount⟩

end Identity

namespace Command
namespace Interact

open CommandLine

variable {words : List Text} {s : Settings} {events : List (Event Choice)} {user : Identity}
  {stdin : Bytes}

/-- A run of the command: its outcome, and the session that it held. Without a session nothing of
the input is read. -/
structure Visit where
  outcome : Outcome
  session? : Option Session.Transcript
  deriving DecidableEq, Repr

def Visit.after (earlier : Text) (v : Visit) : Visit :=
  { v with outcome := v.outcome.after earlier }

def visitOn (stdin : Bytes) (prompt? : Option Text) : Visit :=
  ⟨converseOn stdin prompt?, prompt?.map fun prompt => Session.run prompt (.ofBytes stdin)⟩

/-- The command with some words, for a user, on the bytes of its standard input. -/
def visit (user : Identity) (stdin : Bytes) (words : List Text) : Visit :=
  match settings words with
  | .error stop => ⟨manual.outcome stop, none⟩
  | .ok s =>
    if s.greets then
      match user.name with
      | .error description => ⟨.failed [] (.account description), none⟩
      | .ok name => (visitOn stdin s.prompt?).after (greeting name ++ "\n")
    else visitOn stdin s.prompt?

theorem outcome_visit (user : Identity) (stdin : Bytes) (words : List Text) :
    (visit user stdin words).outcome = run user stdin words := by
  unfold visit run
  cases settings words with
  | error stop => rfl
  | ok s => cases h : s.greets <;> cases hname : user.name <;> simp [h, visitOn, Visit.after]

theorem session?_visitOn_eq_none_iff {prompt? : Option Text} :
    (visitOn stdin prompt?).session? = none ↔ prompt? = none :=
  Option.map_eq_none_iff

theorem visitOn_of_no_session {prompt? : Option Text}
    (h : (visitOn stdin prompt?).session? = none) (other : Bytes) :
    visitOn other prompt? = visitOn stdin prompt? := by
  rw [session?_visitOn_eq_none_iff.mp h]
  rfl

theorem visit_of_no_session (h : (visit user stdin words).session? = none) (other : Bytes) :
    visit user other words = visit user stdin words := by
  unfold visit at h ⊢
  cases hsettings : settings words with
  | error stop => rfl
  | ok s =>
    simp only [hsettings] at h ⊢
    cases hgreets : s.greets with
    | false =>
      simp only [hgreets, Bool.false_eq_true, if_false] at h ⊢
      exact visitOn_of_no_session h other
    | true =>
      simp only [hgreets, if_true] at h ⊢
      cases hname : user.name with
      | error description => rfl
      | ok name =>
        simp only [hname] at h ⊢
        rw [visitOn_of_no_session h other]

theorem visit_of_quiet (h : settings words = .ok s) (hs : s.greets = false) :
    visit user stdin words = visitOn stdin s.prompt? := by
  simp [visit, h, hs]

theorem visit_of_named (h : settings words = .ok s) (hs : s.greets = true) {name : Text}
    (hname : user.Named name) :
    visit user stdin words = (visitOn stdin s.prompt?).after (greeting name ++ "\n") := by
  simp [visit, h, hs, hname.name_eq]

theorem visit_of_fails (h : settings words = .ok s) (hs : s.greets = true) {description : Text}
    (hname : user.Fails description) :
    visit user stdin words = ⟨.failed [] (.account description), none⟩ := by
  simp [visit, h, hs, hname.name_eq]

def given? : Event Choice → Option (Option Text)
  | .value .prompt text? => some text?
  | _ => none

/-- What events choose: the prompt given last, or else the default, and no greeting if the flag is
among them. -/
def Settings.ofEvents (events : List (Event Choice)) : Settings :=
  ⟨(events.filterMap given?).getLast?.getD (some defaultPrompt),
    decide (.flag .noGreeting ∉ events)⟩

theorem act_ofEvents_iff (events : List (Event Choice)) (event : Event Choice) :
    act (.ofEvents events) event = .ok s ↔
      event ≠ .flag .help ∧ s = .ofEvents (events ++ [event]) := by
  rcases event with (_ | _ | _) | ⟨_ | _ | _, _⟩ | _ | _ <;>
    simp [act, Settings.ofEvents, given?, eq_comm]

/-- The settings after all events; they are lost to a request for help only. -/
theorem foldlM_act_eq_ok_iff :
    events.foldlM act {} = .ok s ↔ .flag .help ∉ events ∧ s = .ofEvents events := by
  refine foldlM_eq_ok_iff (.flag .help ∉ ·) .ofEvents List.not_mem_nil rfl ?earlier ?act events s
  case earlier =>
    intro events event h
    exact fun hmem => h (List.mem_append_left _ hmem)
  case act =>
    intro events event s hhelp
    rw [act_ofEvents_iff, List.mem_append, not_or, List.mem_singleton, and_iff_right hhelp,
      ne_comm]

theorem settings_eq_ok_iff :
    settings words = .ok s ↔
      (CommandLine.read switches .closed words).error? = none ∧
        .flag .help ∉ (CommandLine.read switches .closed words).events ∧
        (CommandLine.read switches .closed words).leftovers = [] ∧
        s = .ofEvents (CommandLine.read switches .closed words).events := by
  unfold settings
  generalize CommandLine.read switches .closed words = reading
  cases h : reading.interpret act .misuse {} with
  | error stop =>
    refine iff_of_false (by simp [h]) ?_
    rintro ⟨herror, hhelp, _, rfl⟩
    rw [interpret_eq_ok_iff.mpr ⟨herror, foldlM_act_eq_ok_iff.mpr ⟨hhelp, rfl⟩⟩] at h
    cases h
  | ok found =>
    obtain ⟨herror, hfold⟩ := interpret_eq_ok_iff.mp h
    obtain ⟨hhelp, rfl⟩ := foldlM_act_eq_ok_iff.mp hfold
    cases hleftovers : reading.leftovers with
    | nil => simp [h, hleftovers, herror, hhelp, eq_comm]
    | cons word words => simp [h, hleftovers]

def quietSwitch : Switch Choice := ⟨.noGreeting, none, "no-greeting", false⟩

/-- The word spells the flag: two hyphens and its name, or the beginning of it. -/
def IsQuiet (word : Text) : Prop :=
  ∃ name : Text, name ≠ [] ∧ name <+: "no-greeting".toList ∧ word = '-' :: '-' :: name

def quietWord : Text := quietSwitch.spelling

theorem classify_of_isQuiet {word : Text} (h : IsQuiet word) :
    Word.classify switches word = .ok (.option (.named quietSwitch none)) := by
  obtain ⟨name, hne, hprefix, rfl⟩ := h
  have hname := (List.mem_inits _ _).mpr hprefix
  simp only [String.reduceToList, List.inits, List.map_cons, List.map_nil, List.mem_cons,
    List.not_mem_nil, or_false] at hname
  rcases hname.resolve_left hne with
    rfl | rfl | rfl | rfl | rfl | rfl | rfl | rfl | rfl | rfl | rfl <;> rfl

theorem eq_quietSwitch {option : Switch Choice} (h : option ∈ switches)
    (hid : option.id = .noGreeting) : option = quietSwitch := by
  simp only [switches, List.mem_cons, List.not_mem_nil, or_false] at h
  rcases h with rfl | rfl | rfl
  case inr.inr => rfl
  all_goals cases hid

theorem eq_help_of_letter {option : Switch Choice} (h : option ∈ switches) {letter : Char}
    (hletter : option.letter? = some letter) : option.wantsValue = false ∧ option.id = .help := by
  simp only [switches, List.mem_cons, List.not_mem_nil, or_false] at h
  rcases h with rfl | rfl | rfl
  case inl => exact ⟨rfl, rfl⟩
  all_goals cases hletter

/-- A word that asks for the flag spells its name: the only option with a letter is help. -/
theorem isQuiet_of_flag {word : Text} {use : Use Choice} {expansion : Expansion Choice}
    (hword : Spells switches word use) (hexpansion : Expansion.ofUse switches use = .ok expansion)
    (hhelp : .flag .help ∉ expansion.events) (hevent : .flag .noGreeting ∈ expansion.events) :
    IsQuiet word := by
  cases hword with
  | @named name option value? hcandidates =>
    obtain ⟨hid, rfl⟩ := Expansion.flag_of_named hexpansion hevent
    obtain ⟨hmem, hprefix⟩ := prefix_of_candidates hcandidates
    rw [eq_quietSwitch hmem hid] at hprefix
    refine ⟨name, ?_, hprefix, congrArg ('-' :: '-' :: ·) (List.append_nil name)⟩
    rintro rfl
    cases hcandidates
  | lettered following hmem hletter =>
    obtain ⟨hwants, hid⟩ := eq_help_of_letter hmem hletter
    have hflag := Expansion.flag_mem_of_ofUse hwants hexpansion
    rw [hid] at hflag
    exact absurd hflag hhelp

theorem greets_eq_false_iff (h : settings words = .ok s) :
    s.greets = false ↔ ∃ word ∈ words, IsQuiet word := by
  obtain ⟨herror, hhelp, hleftovers, rfl⟩ := settings_eq_ok_iff.mp h
  have hgreets : (Settings.ofEvents (CommandLine.read switches .closed words).events).greets =
      false ↔ .flag .noGreeting ∈ (CommandLine.read switches .closed words).events := by
    simp [Settings.ofEvents]
  rw [hgreets]
  constructor
  · intro hevent
    cases says_of_mem_read hevent with
    | own huse hexpansion hasked =>
      obtain ⟨granted, hgranted, hsubset⟩ := grants_read herror huse
      obtain ⟨word, hword, hclass⟩ := huse
      cases hexpansion.symm.trans hgranted
      refine ⟨word, mem_of_mem_before hword, ?_⟩
      exact isQuiet_of_flag (spells_of_classify hclass) hexpansion (fun h => hhelp (hsubset h))
        hasked
  · rintro ⟨word, hword, hquiet⟩
    -- An accepted command line has no dashes, since there is no operand to take them along.
    have hbefore : word ∈ (cutAtDashes words).1 := by rwa [before_eq_of_closed herror hleftovers]
    obtain ⟨expansion, hexpansion, hsubset⟩ :=
      grants_read herror ⟨word, hbefore, classify_of_isQuiet hquiet⟩
    cases hexpansion
    exact hsubset (List.mem_singleton_self _)

/-- The flag in front of an accepted command line takes nothing but the greeting away. -/
theorem settings_quiet (h : settings words = .ok s) :
    settings (quietWord :: words) = .ok { s with greets := false } := by
  obtain ⟨herror, hhelp, hleftovers, rfl⟩ := settings_eq_ok_iff.mp h
  have hread : CommandLine.read switches .closed (quietWord :: words) =
      (CommandLine.read switches .closed words).prepend [.flag .noGreeting] :=
    read_cons_of_option (by decide) rfl rfl rfl herror
  rw [settings_eq_ok_iff, hread]
  refine ⟨herror, ?_, hleftovers, ?_⟩
  · simpa [Reading.prepend] using hhelp
  · simp [Reading.prepend, Settings.ofEvents, given?]

/-- On an accepted command line the identity of the user shows in the greeting alone. If the words
ask for no greeting, in whatever spelling, then the outcome, the session and what it leaves unread
are the same for all users. Otherwise the look-up of the user either finds a name or fails. If it
finds one, then all is as with the flag in front of the words, behind the line that greets the user
by this name, also if the session fails later on. If it fails, then this failure is the outcome,
nothing is shown, and nothing of the input is read. -/
theorem identity_shows_in_greeting_only (h : settings words = .ok s) (stdin : Bytes) :
    (∀ user, (visit user stdin words).outcome = run user stdin words ∧
        ((visit user stdin words).session? = none →
          ∀ other, visit user other words = visit user stdin words)) ∧
      (s.greets = false ↔ ∃ word ∈ words, IsQuiet word) ∧
      (s.greets = false → ∀ user other, visit user stdin words = visit other stdin words) ∧
      (s.greets = true → ∀ user : Identity,
        ((∃ name, user.Named name) ∨ ∃ description, user.Fails description) ∧
          (∀ name, user.Named name →
            visit user stdin words =
              (visit user stdin (quietWord :: words)).after (greeting name ++ "\n")) ∧
          ∀ description, user.Fails description →
            visit user stdin words = ⟨.failed [] (.account description), none⟩) := by
  refine ⟨?_, greets_eq_false_iff h, ?_, ?_⟩
  · intro user
    exact ⟨outcome_visit user stdin words, visit_of_no_session⟩
  · intro hs user other
    rw [visit_of_quiet h hs, visit_of_quiet h hs]
  · intro hs user
    refine ⟨user.named_or_fails, ?_, fun _ hfails => visit_of_fails h hs hfails⟩
    intro name hname
    rw [visit_of_named h hs hname, visit_of_quiet (settings_quiet h) rfl]

/-- A user without an account is greeted by a variable, although the input is not valid. -/
theorem user_is_greeted_before_failing_session :
    let user : Identity := ⟨[("LOGNAME", []), ("USER", "ada")], .error .missing⟩
    let words : List Text := ["--prompt", ">> "]
    let stdin : Bytes := [0x61, 0x0A, 0xFF]
    settings words = .ok ⟨some (">> " : Text), true⟩ ∧ user.Named "ada" ∧
      visit user stdin words =
        (visit user stdin ("--no-greeting" :: words)).after
          "Hello ada! This is the Monkey programming language!\n" ∧
      visit user stdin words =
        ⟨.failed "Hello ada! This is the Monkey programming language!\n>> "
            (.input ⟨2, [0xFF], .invalidStart⟩),
          some ⟨">> ", .inputFailed ⟨2, [0xFF], .invalidStart⟩, []⟩⟩ := by
  intro user words stdin
  have hsettings : settings words = .ok ⟨some (">> " : Text), true⟩ := rfl
  have hname : user.Named "ada" := by
    refine @Identity.Named.ofVariable _ ["LOGNAME"] ["LNAME", "USERNAME"] "USER" _ rfl ?_ rfl
      (by decide)
    intro v hv value hvalue
    rw [List.mem_singleton.mp hv] at hvalue
    cases hvalue
    rfl
  have hgreeted := (identity_shows_in_greeting_only hsettings stdin).2.2.2 rfl user
  exact ⟨hsettings, hname, hgreeted.2.1 _ hname, by decide +kernel⟩

end Interact
end Command
end MonkeyLexis
