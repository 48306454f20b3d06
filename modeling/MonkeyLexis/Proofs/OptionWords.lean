import Mathlib.Data.List.TakeWhile
import MonkeyLexis.CommandLine.Reading

/-!
# Words that use options

A word that uses an option by name consists of two hyphens, the name or its beginning,
and perhaps an equals sign and a value; one that uses it by letter has the letter behind
one hyphen. What such a word asks for by itself is told by its parts: flags if no value
is wanted, and a value without a text if two dashes are attached where one is.
-/

namespace MonkeyLexis
namespace CommandLine

variable {ι : Type} {switches : List (Switch ι)} {s : Switch ι} {word name : Text} {use : Use ι}

theorem takeWhile_append_cons {α : Type} [BEq α] [LawfulBEq α] {mark head : α} {l rest : List α}
    (h : l.dropWhile (· != mark) = head :: rest) : l.takeWhile (· != mark) ++ mark :: rest = l := by
  have hsplit := List.takeWhile_append_dropWhile (p := (· != mark)) (l := l)
  have hhead := List.head?_dropWhile_not (· != mark) l
  rw [h] at hsplit hhead
  have heq : head = mark := by simpa using hhead
  rw [heq] at hsplit
  exact hsplit

def attachment (value? : Option Text) : Text := value?.elim [] ('=' :: ·)

theorem append_attachment (t : Text) : (cutAtEquals t).1 ++ attachment (cutAtEquals t).2 = t := by
  unfold cutAtEquals
  cases h : t.dropWhile (· != '=') with
  | nil => exact List.append_nil t
  | cons sign value => exact takeWhile_append_cons h

theorem prefix_of_candidates (h : Word.candidates switches name = [s]) :
    s ∈ switches ∧ name <+: s.name := by
  unfold Word.candidates at h
  split at h
  · next found hfind =>
    cases h
    have hname : s.name = name := by simpa using List.find?_some hfind
    rw [hname]
    exact ⟨List.mem_of_find?_eq_some hfind, List.prefix_rfl⟩
  · have hmem : s ∈ switches.filter fun s => name.isPrefixOf s.name := by
      rw [h]
      exact List.mem_singleton_self s
    obtain ⟨hs, hprefix⟩ := List.mem_filter.mp hmem
    exact ⟨hs, List.isPrefixOf_iff_prefix.mp hprefix⟩

/-- The word is written for this use of options. -/
inductive Spells (switches : List (Switch ι)) : Text → Use ι → Prop
  | named {name : Text} {s : Switch ι} (value? : Option Text)
      (h : Word.candidates switches name = [s]) :
      Spells switches ('-' :: '-' :: (name ++ attachment value?)) (.named s value?)
  | lettered {letter : Char} {s : Switch ι} (following : Text) (hs : s ∈ switches)
      (hletter : s.letter? = some letter) :
      Spells switches ('-' :: letter :: following) (.lettered s following)

theorem unnamed_ne_option (word : Text) : Word.unnamed word ≠ .option use := by
  unfold Word.unnamed
  split <;> simp

theorem spells_of_classify (h : Word.classify switches word = .ok (.option use)) :
    Spells switches word use := by
  unfold Word.classify at h
  split at h
  · next text =>
    simp only at h
    split at h
    · exact absurd (Except.ok.inj h) (unnamed_ne_option _)
    · next s hcandidates =>
      cases h
      have hnamed := Spells.named (cutAtEquals text).2 hcandidates
      rwa [append_attachment] at hnamed
    · cases h
  · next letter following _ =>
    split at h
    · next s hfind =>
      cases h
      have hletter : s.letter? = some letter := by simpa using List.find?_some hfind
      exact .lettered following (List.mem_of_find?_eq_some hfind) hletter
    · exact absurd (Except.ok.inj h) (unnamed_ne_option _)
  · cases h

namespace Expansion

variable {event : Event ι} {expansion : Expansion ι} {attached following : Text} {id : ι}

def IsAsked : Event ι → Prop
  | .flag _ | .value _ _ => True
  | .operand _ | .leftover _ => False

theorem attachedText?_eq_none_iff : attachedText? attached = none ↔ attached = ['-', '-'] := by
  simp [attachedText?]

theorem withValue_cases (h : withValue s attached = .ok expansion) :
    s.wantsValue = true ∧ expansion = complete [.value s.id (attachedText? attached)] := by
  unfold withValue at h
  split at h
  · next hwants => exact ⟨hwants, (Except.ok.inj h).symm⟩
  · cases h

theorem bare_cases (s : Switch ι) :
    (s.wantsValue = true ∧ bare s = ⟨[], some s⟩) ∨
      (s.wantsValue = false ∧ bare s = complete [.flag s.id]) := by
  unfold bare
  cases h : s.wantsValue <;> simp

theorem lettered_of_wantsValue (hs : s.wantsValue = true) (attached : Text) :
    lettered switches s attached = withValue s attached := by
  cases attached with
  | nil => rfl
  | cons letter attached => rw [lettered, if_pos hs]

/-- If none is wanted, then the letter is a flag whatever is attached. -/
theorem flag_mem_of_lettered (hs : s.wantsValue = false)
    (h : lettered switches s attached = .ok expansion) : .flag s.id ∈ expansion.events := by
  have hvalue : ∀ attached, withValue s attached ≠ .ok expansion := by
    intro attached h
    rw [(withValue_cases h).1] at hs
    cases hs
  cases attached with
  | nil => exact absurd h (hvalue [])
  | cons letter attached =>
    rw [lettered, if_neg (by simp [hs])] at h
    split at h
    · exact absurd h (hvalue _)
    · split at h
      · cases h
      · cases h
        exact List.mem_cons_self

theorem isAsked_of_bare (h : event ∈ (bare s).events) : IsAsked event := by
  rcases bare_cases s with ⟨_, hbare⟩ | ⟨_, hbare⟩
  · rw [hbare] at h
    exact absurd h List.not_mem_nil
  · rw [hbare] at h
    rw [List.mem_singleton.mp h]
    trivial

theorem isAsked_of_withValue (h : withValue s attached = .ok expansion)
    (hevent : event ∈ expansion.events) : IsAsked event := by
  rw [(withValue_cases h).2] at hevent
  rw [List.mem_singleton.mp hevent]
  trivial

theorem isAsked_of_lettered (h : lettered switches s attached = .ok expansion)
    (hevent : event ∈ expansion.events) : IsAsked event := by
  fun_induction lettered switches s attached generalizing expansion with
  | case1 s => exact isAsked_of_withValue h hevent
  | case2 s letter attached hs => exact isAsked_of_withValue h hevent
  | case3 s letter attached hs hfind => exact isAsked_of_withValue h hevent
  | case4 s letter attached hs next hfind error hlater ih => cases h
  | case5 s letter attached hs next hfind later hlater ih =>
    cases h
    rcases List.mem_cons.mp hevent with rfl | hevent
    · trivial
    · split at hlater
      · cases hlater
        exact isAsked_of_bare hevent
      · exact ih hlater hevent

theorem ofUse_lettered (switches : List (Switch ι)) (s : Switch ι) (following : Text) :
    (following = [] ∧ ofUse switches (.lettered s following) = .ok (bare s)) ∨
      ∃ attached, (following = attached ∨ following = '=' :: attached) ∧
        ofUse switches (.lettered s following) = lettered switches s attached := by
  unfold ofUse
  split
  · next h => cases h
  · next h => cases h
  · next h =>
    cases h
    exact .inl ⟨rfl, rfl⟩
  · next attached h =>
    cases h
    exact .inr ⟨attached, .inr rfl, rfl⟩
  · next h =>
    cases h
    exact .inr ⟨following, .inl rfl, rfl⟩

theorem isAsked_of_ofUse (h : ofUse switches use = .ok expansion)
    (hevent : event ∈ expansion.events) : IsAsked event := by
  cases use with
  | named s value? =>
    cases value? with
    | none =>
      cases h
      exact isAsked_of_bare hevent
    | some value => exact isAsked_of_withValue h hevent
  | lettered s following =>
    rcases ofUse_lettered switches s following with ⟨_, hbare⟩ | ⟨_, _, hlettered⟩
    · rw [hbare] at h
      cases h
      exact isAsked_of_bare hevent
    · rw [hlettered] at h
      exact isAsked_of_lettered h hevent

theorem flag_mem_of_ofUse (hs : s.wantsValue = false)
    (h : ofUse switches (.lettered s following) = .ok expansion) :
    .flag s.id ∈ expansion.events := by
  rcases ofUse_lettered switches s following with ⟨_, hbare⟩ | ⟨_, _, hlettered⟩
  · rw [hbare] at h
    cases h
    simp [bare, hs, complete]
  · rw [hlettered] at h
    exact flag_mem_of_lettered hs h

/-- The uses of an option that attach two dashes to it. -/
inductive Dashed (s : Switch ι) : Use ι → Prop
  | named : Dashed s (.named s (some ['-', '-']))
  | lettered : Dashed s (.lettered s ['-', '-'])
  | equated : Dashed s (.lettered s ['=', '-', '-'])

theorem dashes_of_withValue (h : withValue s attached = .ok expansion)
    (hevent : .value id none ∈ expansion.events) : s.id = id ∧ attached = ['-', '-'] := by
  rw [(withValue_cases h).2] at hevent
  have hvalue := List.mem_singleton.mp hevent
  rw [Event.value.injEq] at hvalue
  exact ⟨hvalue.1.symm, attachedText?_eq_none_iff.mp hvalue.2.symm⟩

theorem no_value_of_bare : .value id none ∉ (bare s).events := by
  rcases bare_cases s with ⟨_, hbare⟩ | ⟨_, hbare⟩ <;> simp [hbare, complete]

/-- A value has no text only if two dashes are attached, by name or by letter. A letter that wants
no value may stand in front of the letter that does. -/
theorem dashed_of_value_none (h : ofUse switches use = .ok expansion)
    (hevent : .value id none ∈ expansion.events) :
    (∃ s, s.id = id ∧ Dashed s use) ∨
      ∃ s following, use = .lettered s following ∧ s.wantsValue = false := by
  cases use with
  | named s value? =>
    cases value? with
    | none =>
      cases h
      exact absurd hevent no_value_of_bare
    | some value =>
      obtain ⟨hid, rfl⟩ := dashes_of_withValue h hevent
      exact .inl ⟨s, hid, .named⟩
  | lettered s following =>
    by_cases hs : s.wantsValue = true
    · rcases ofUse_lettered switches s following with
        ⟨_, hbare⟩ | ⟨attached, hfollowing, hlettered⟩
      · rw [hbare] at h
        cases h
        exact absurd hevent no_value_of_bare
      · rw [hlettered, lettered_of_wantsValue hs] at h
        obtain ⟨hid, rfl⟩ := dashes_of_withValue h hevent
        rcases hfollowing with rfl | rfl
        · exact .inl ⟨s, hid, .lettered⟩
        · exact .inl ⟨s, hid, .equated⟩
    · exact .inr ⟨s, following, rfl, Bool.eq_false_iff.mpr hs⟩

theorem flag_of_named {value? : Option Text}
    (h : ofUse switches (.named s value?) = .ok expansion) (hevent : .flag id ∈ expansion.events) :
    s.id = id ∧ value? = none := by
  cases value? with
  | none =>
    cases h
    rcases bare_cases s with ⟨_, hbare⟩ | ⟨_, hbare⟩
    · simp [hbare] at hevent
    · simp only [hbare, complete, List.mem_singleton, Event.flag.injEq] at hevent
      exact ⟨hevent.symm, rfl⟩
  | some value =>
    rw [(withValue_cases h).2] at hevent
    simp [complete] at hevent

end Expansion
end CommandLine
end MonkeyLexis
