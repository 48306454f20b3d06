import Mathlib.Data.List.Forall2
import Mathlib.Data.List.Induction
import MonkeyLexis.Proofs.OptionWords

/-!
# Where events come from

Every event of a reading stems from words of the command line: an operand and a leftover
are words themselves, and all other events are asked for by a word before the first `--`
that uses options, the value perhaps by the next word. Conversely, if nothing is wrong
with the words, then all that such a word asks for happens. There is at most one
operand, and a word for options in front of all others changes nothing behind it.
-/

namespace MonkeyLexis
namespace CommandLine

variable {ι σ ε : Type} {switches : List (Switch ι)} {room : Room} {words : List Text}
  {event : Event ι}

def behind (after? : Option (List Text)) : List Text := after?.elim [] (['-', '-'] :: ·)

theorem append_behind (words : List Text) :
    (cutAtDashes words).1 ++ behind (cutAtDashes words).2 = words := by
  unfold cutAtDashes
  cases h : words.dropWhile (· != ['-', '-']) with
  | nil => exact List.append_nil words
  | cons dashes after => exact takeWhile_append_cons h

theorem cutAtDashes_cons {word : Text} (h : word ≠ ['-', '-']) (words : List Text) :
    cutAtDashes (word :: words) = (word :: (cutAtDashes words).1, (cutAtDashes words).2) := by
  have hword : (word != ['-', '-']) = true := bne_iff_ne.mpr h
  have hdrop : (word :: words).dropWhile (· != ['-', '-']) = words.dropWhile (· != ['-', '-']) :=
    List.dropWhile_cons_of_pos hword
  unfold cutAtDashes
  rw [hdrop]
  cases words.dropWhile (· != ['-', '-']) with
  | nil => rfl
  | cons dashes after => exact congrArg (·, some after) (List.takeWhile_cons_of_pos hword)

theorem mem_of_mem_before {word : Text} (h : word ∈ (cutAtDashes words).1) : word ∈ words := by
  rw [← append_behind words]
  exact List.mem_append_left _ h

def Classified (switches : List (Switch ι)) : List Text → List (Text × Word ι) → Prop :=
  List.Forall₂ fun word c => c.1 = word ∧ Word.classify switches word = .ok c.2

theorem map_classify_eq_ok_iff {word : Text} {c : Text × Word ι} :
    (Word.classify switches word).map (word, ·) = .ok c ↔
      c.1 = word ∧ Word.classify switches word = .ok c.2 := by
  obtain ⟨other, kind⟩ := c
  cases Word.classify switches word with
  | error error => simp [Except.map]
  | ok found => simp [Except.map, eq_comm]

theorem mapM_eq_ok_iff {α β : Type} {f : α → Except ε β} {xs : List α} {ys : List β} :
    xs.mapM f = .ok ys ↔ List.Forall₂ (fun x y => f x = .ok y) xs ys := by
  induction xs generalizing ys with
  | nil => cases ys <;> simp [pure, Except.pure]
  | cons x xs ih =>
    rw [List.mapM_cons]
    cases hx : f x with
    | error error => cases ys <;> simp [bind, Except.bind, hx]
    | ok y =>
      cases hxs : xs.mapM f with
      | error error => cases ys <;> simp [bind, Except.bind, hx, ← ih, hxs]
      | ok later => cases ys <;> simp [bind, Except.bind, pure, Except.pure, hx, ← ih, hxs]

theorem mapM_classify_eq_ok_iff {cs : List (Text × Word ι)} :
    words.mapM (fun word => (Word.classify switches word).map (word, ·)) = .ok cs ↔
      Classified switches words cs := by
  rw [mapM_eq_ok_iff]
  simp only [map_classify_eq_ok_iff]
  rfl

/-- A reading fails for a word before the dashes, or it reads the words with their classes. -/
theorem read_cases (switches : List (Switch ι)) (room : Room) (words : List Text) :
    (∃ error, read switches room words = .failed error) ∨
      ∃ cs, Classified switches (cutAtDashes words).1 cs ∧
        read switches room words = readWords switches (cutAtDashes words).2 room cs := by
  unfold read
  cases h : (cutAtDashes words).1.mapM
      (fun word => (Word.classify switches word).map (word, ·)) with
  | error error =>
    left
    exact ⟨error, by simp only [h]⟩
  | ok cs =>
    right
    exact ⟨cs, mapM_classify_eq_ok_iff.mp h, by simp only [h]⟩

theorem read_of_classified {cs : List (Text × Word ι)}
    (h : Classified switches (cutAtDashes words).1 cs) (room : Room) :
    read switches room words = readWords switches (cutAtDashes words).2 room cs := by
  unfold read
  simp only [mapM_classify_eq_ok_iff.mpr h]

/-- A word before the first `--` uses options in this way. -/
def Uses (switches : List (Switch ι)) (words : List Text) (use : Use ι) : Prop :=
  ∃ word ∈ (cutAtDashes words).1, Word.classify switches word = .ok (.option use)

/-- The words say that the event happens. -/
inductive Says (switches : List (Switch ι)) (words : List Text) : Event ι → Prop
  | operand {word : Text} (h : word ∈ words) : Says switches words (.operand word)
  | leftover {word : Text} (h : word ∈ words) : Says switches words (.leftover word)
  | own {use : Use ι} {expansion : Expansion ι} {event : Event ι} (h : Uses switches words use)
      (hexpansion : Expansion.ofUse switches use = .ok expansion)
      (hevent : event ∈ expansion.events) : Says switches words event
  | next {use : Use ι} {expansion : Expansion ι} {s : Switch ι} {value : Text}
      (h : Uses switches words use) (hexpansion : Expansion.ofUse switches use = .ok expansion)
      (hs : expansion.awaiting? = some s) (hvalue : value ∈ words) :
      Says switches words (.value s.id (some value))

theorem says_of_mem_readAfterDashes {after? : Option (List Text)}
    (hafter : ∀ word ∈ behind after?, word ∈ words)
    (h : event ∈ (readAfterDashes room after?).events) : Says switches words event := by
  have hleftovers : ∀ after : List Text, (∀ word ∈ after, word ∈ words) →
      event ∈ after.map Event.leftover → Says switches words event := by
    intro after hafter h
    obtain ⟨word, hword, rfl⟩ := List.mem_map.mp h
    exact .leftover (hafter word hword)
  cases after? with
  | none => exact absurd h List.not_mem_nil
  | some after =>
    obtain ⟨hdashes, hwords⟩ := List.forall_mem_cons.mp hafter
    cases room with
    | free =>
      cases after with
      | nil => exact absurd h List.not_mem_nil
      | cons word after =>
        obtain ⟨hword, hafter⟩ := List.forall_mem_cons.mp hwords
        rcases List.mem_cons.mp h with rfl | h
        · exact .operand hword
        · exact hleftovers after hafter h
    | justFilled => exact hleftovers after hwords h
    | closed =>
      rcases List.mem_cons.mp h with rfl | h
      · exact .leftover hdashes
      · exact hleftovers after hwords h

/-- The induction follows the reading; all words that are still to be read are among `words`. -/
theorem says_of_mem_readWords {after? : Option (List Text)} {cs : List (Text × Word ι)}
    (hcs : ∀ c ∈ cs, c.1 ∈ words ∧ ∀ use, c.2 = .option use → Uses switches words use)
    (hafter : ∀ word ∈ behind after?, word ∈ words)
    (h : event ∈ (readWords switches after? room cs).events) : Says switches words event := by
  fun_induction readWords switches after? room cs with
  | case1 room => exact says_of_mem_readAfterDashes hafter h
  | case2 word cs ih =>
    obtain ⟨hword, hlater⟩ := List.forall_mem_cons.mp hcs
    rcases List.mem_cons.mp h with rfl | h
    · exact .operand hword.1
    · exact ih hlater h
  | case3 room word cs hroom ih =>
    obtain ⟨hword, hlater⟩ := List.forall_mem_cons.mp hcs
    rcases List.mem_cons.mp h with rfl | h
    · exact .leftover hword.1
    · exact ih hlater h
  | case4 room word cs ih =>
    obtain ⟨hword, hlater⟩ := List.forall_mem_cons.mp hcs
    rcases List.mem_cons.mp h with rfl | h
    · exact .leftover hword.1
    · exact ih hlater h
  | case5 room word use cs error hexpansion => exact absurd h List.not_mem_nil
  | case6 room word use cs events hexpansion ih =>
    obtain ⟨hword, hlater⟩ := List.forall_mem_cons.mp hcs
    rcases List.mem_append.mp h with h | h
    · exact .own (hword.2 use rfl) hexpansion h
    · exact ih hlater h
  | case7 room word use events s hexpansion value cs event' ih =>
    obtain ⟨hword, hlater⟩ := List.forall_mem_cons.mp hcs
    obtain ⟨hvalue, hlater⟩ := List.forall_mem_cons.mp hlater
    rcases List.mem_append.mp h with h | h
    · rcases List.mem_append.mp h with h | h
      · exact .own (hword.2 use rfl) hexpansion h
      · rw [List.mem_singleton.mp h]
        exact .next (hword.2 use rfl) hexpansion rfl hvalue.1
    · exact ih hlater h
  | case8 room word use cs events s hexpansion hnext => exact absurd h List.not_mem_nil

theorem Classified.of_mem {before : List Text} {cs : List (Text × Word ι)}
    (h : Classified switches before cs) :
    ∀ c ∈ cs, c.1 ∈ before ∧ Word.classify switches c.1 = .ok c.2 := by
  induction h with
  | nil => exact fun c hc => absurd hc List.not_mem_nil
  | cons hhead _ ih =>
    obtain ⟨rfl, hclass⟩ := hhead
    intro c hc
    rcases List.mem_cons.mp hc with rfl | hc
    · exact ⟨List.mem_cons_self, hclass⟩
    · exact ⟨List.mem_cons_of_mem _ (ih c hc).1, (ih c hc).2⟩

theorem Classified.exists_mem {before : List Text} {cs : List (Text × Word ι)} {word : Text}
    {c : Word ι} (h : Classified switches before cs) (hword : word ∈ before)
    (hclass : Word.classify switches word = .ok c) : (word, c) ∈ cs := by
  induction h with
  | nil => exact absurd hword List.not_mem_nil
  | cons hhead _ ih =>
    obtain ⟨rfl, hother⟩ := hhead
    rcases List.mem_cons.mp hword with rfl | hmem
    · rw [hother] at hclass
      cases hclass
      exact List.mem_cons_self
    · exact List.mem_cons_of_mem _ (ih hmem)

theorem says_of_mem_read (h : event ∈ (read switches room words).events) :
    Says switches words event := by
  rcases read_cases switches room words with ⟨error, hread⟩ | ⟨cs, hcs, hread⟩
  · rw [hread] at h
    exact absurd h List.not_mem_nil
  · rw [hread] at h
    refine says_of_mem_readWords ?_ ?_ h
    · intro c hc
      obtain ⟨hword, hclass⟩ := hcs.of_mem c hc
      refine ⟨mem_of_mem_before hword, ?_⟩
      intro use huse
      exact ⟨c.1, hword, by rw [hclass, huse]⟩
    · intro word hword
      rw [← append_behind words]
      exact List.mem_append_right _ hword

/-- All that the use of options asks for is among the events. -/
def Grants (switches : List (Switch ι)) (use : Use ι) (events : List (Event ι)) : Prop :=
  ∃ expansion, Expansion.ofUse switches use = .ok expansion ∧ expansion.events ⊆ events

theorem Grants.append {use : Use ι} {events : List (Event ι)} (h : Grants switches use events)
    (earlier : List (Event ι)) : Grants switches use (earlier ++ events) := by
  obtain ⟨expansion, hexpansion, hevents⟩ := h
  exact ⟨expansion, hexpansion, List.subset_append_of_subset_right earlier hevents⟩

theorem grants_readWords {after? : Option (List Text)} {cs : List (Text × Word ι)} {word : Text}
    {use : Use ι} (h : (readWords switches after? room cs).error? = none)
    (hword : (word, .option use) ∈ cs) :
    Grants switches use (readWords switches after? room cs).events := by
  fun_induction readWords switches after? room cs with
  | case1 room => exact absurd hword List.not_mem_nil
  | case2 other cs ih =>
    have hmem : (word, Word.option use) ∈ cs := by simpa using hword
    exact (ih h hmem).append [_]
  | case3 room other cs hroom ih =>
    have hmem : (word, Word.option use) ∈ cs := by simpa using hword
    exact (ih h hmem).append [_]
  | case4 room other cs ih =>
    have hmem : (word, Word.option use) ∈ cs := by simpa using hword
    exact (ih h hmem).append [_]
  | case5 room other use' cs error hexpansion => cases h
  | case6 room other use' cs events hexpansion ih =>
    rcases List.mem_cons.mp hword with heq | hmem
    · cases heq
      exact ⟨_, hexpansion, List.subset_append_left events _⟩
    · exact (ih h hmem).append events
  | case7 room other use' events s hexpansion value cs event' ih =>
    rcases List.mem_cons.mp hword with heq | hmem
    · cases heq
      refine ⟨_, hexpansion, ?_⟩
      exact List.subset_append_of_subset_left _ (List.subset_append_left events _)
    · have hmem : (word, Word.option use) ∈ cs := by simpa using hmem
      exact (ih h hmem).append _
  | case8 room other use' cs events s hexpansion hnext => cases h

/-- If nothing is wrong with the words, then all that a use of options asks for happens. -/
theorem grants_read {use : Use ι} (h : (read switches room words).error? = none)
    (huse : Uses switches words use) : Grants switches use (read switches room words).events := by
  obtain ⟨word, hword, hclass⟩ := huse
  rcases read_cases switches room words with ⟨error, hread⟩ | ⟨cs, hcs, hread⟩
  · rw [hread] at h
    cases h
  · rw [hread] at h ⊢
    exact grants_readWords h (hcs.exists_mem hword hclass)

def Event.operand? : Event ι → Option Text
  | .operand word => some word
  | _ => none

def Reading.operands (r : Reading ι) : List Text := r.events.filterMap Event.operand?

theorem filterMap_operand?_of_ofUse {use : Use ι} {expansion : Expansion ι}
    (h : Expansion.ofUse switches use = .ok expansion) :
    expansion.events.filterMap Event.operand? = [] := by
  apply List.filterMap_eq_nil_iff.mpr
  intro event hevent
  have hasked := Expansion.isAsked_of_ofUse h hevent
  cases event with
  | flag | value => rfl
  | operand | leftover => exact hasked.elim

theorem length_operands_readAfterDashes_le (room : Room) (after? : Option (List Text)) :
    (readAfterDashes (ι := ι) room after?).operands.length ≤ if room = .free then 1 else 0 := by
  unfold Reading.operands
  rcases after? with _ | _ | ⟨word, after⟩ <;> cases room <;>
    simp [readAfterDashes, Event.operand?]

theorem operands_prepend (events : List (Event ι)) (r : Reading ι) :
    (r.prepend events).operands = events.filterMap Event.operand? ++ r.operands :=
  List.filterMap_append

/-- A word becomes an operand only while there is room, and then there is no more. -/
theorem length_operands_readWords_le {after? : Option (List Text)} (cs : List (Text × Word ι)) :
    (readWords switches after? room cs).operands.length ≤ if room = .free then 1 else 0 := by
  have hsettled : ∀ room : Room,
      (if room.settled = .free then 1 else 0) = if room = .free then 1 else 0 := by
    intro room
    cases room <;> rfl
  fun_induction readWords switches after? room cs with
  | case1 room => exact length_operands_readAfterDashes_le room after?
  | case2 word cs ih => exact Nat.succ_le_succ ih
  | case3 room word cs hroom ih => exact ih.trans (Nat.zero_le _)
  | case4 room word cs ih => exact ih.trans (hsettled room).le
  | case5 room word use cs error hexpansion => exact Nat.zero_le _
  | case6 room word use cs events hexpansion ih =>
    have hevents : events.filterMap Event.operand? = [] := filterMap_operand?_of_ofUse hexpansion
    rw [operands_prepend, hevents]
    exact ih.trans (hsettled room).le
  | case7 room word use events s hexpansion value cs event' ih =>
    have hevents : events.filterMap Event.operand? = [] := filterMap_operand?_of_ofUse hexpansion
    rw [operands_prepend, List.filterMap_append, hevents]
    exact ih.trans (hsettled room).le
  | case8 room word use cs events s hexpansion hnext => exact Nat.zero_le _

theorem length_operands_read_le_one (switches : List (Switch ι)) (room : Room)
    (words : List Text) : (read switches room words).operands.length ≤ 1 := by
  rcases read_cases switches room words with ⟨error, hread⟩ | ⟨cs, _, hread⟩
  · rw [hread]
    exact Nat.zero_le 1
  · rw [hread]
    refine (length_operands_readWords_le cs).trans ?_
    split <;> decide

theorem mem_leftovers {word : Text} {r : Reading ι} :
    word ∈ r.leftovers ↔ .leftover word ∈ r.events := by
  unfold Reading.leftovers
  rw [List.mem_filterMap]
  constructor
  · rintro ⟨event, hevent, hword⟩
    cases event with
    | leftover other =>
      cases hword
      exact hevent
    | flag | value | operand => cases hword
  · intro h
    exact ⟨_, h, rfl⟩

/-- The room stays closed, so that nothing takes the dashes along. -/
theorem dashes_mem_readWords {after : List Text} {cs : List (Text × Word ι)}
    (hroom : room = .closed) (h : (readWords switches (some after) room cs).error? = none) :
    .leftover ['-', '-'] ∈ (readWords switches (some after) room cs).events := by
  fun_induction readWords switches (some after) room cs with
  | case1 room =>
    rw [hroom]
    exact List.mem_cons_self
  | case2 word cs ih => cases hroom
  | case3 room word cs hfree ih => exact List.mem_cons_of_mem _ (ih rfl h)
  | case4 room word cs ih =>
    subst hroom
    exact List.mem_cons_of_mem _ (ih rfl h)
  | case5 room word use cs error hexpansion => cases h
  | case6 room word use cs events hexpansion ih =>
    subst hroom
    exact List.mem_append_right _ (ih rfl h)
  | case7 room word use events s hexpansion value cs event' ih =>
    subst hroom
    exact List.mem_append_right _ (ih rfl h)
  | case8 room word use cs events s hexpansion hnext => cases h

theorem before_eq_of_closed (herror : (read switches .closed words).error? = none)
    (hleftovers : (read switches .closed words).leftovers = []) :
    (cutAtDashes words).1 = words := by
  have hall := append_behind words
  cases hafter : (cutAtDashes words).2 with
  | none =>
    rw [hafter] at hall
    rwa [← List.append_nil (cutAtDashes words).1]
  | some after =>
    exfalso
    rcases read_cases switches .closed words with ⟨error, hread⟩ | ⟨cs, _, hread⟩
    · rw [hread] at herror
      cases herror
    · rw [hafter] at hread
      rw [hread] at herror hleftovers
      have hdashes := mem_leftovers.mpr (dashes_mem_readWords rfl herror)
      rw [hleftovers] at hdashes
      exact absurd hdashes List.not_mem_nil

/-- An option in front of other words, complete in itself, only puts its events before theirs. -/
theorem read_cons_of_option {word : Text} {use : Use ι} {events : List (Event ι)}
    (hword : word ≠ ['-', '-']) (hclass : Word.classify switches word = .ok (.option use))
    (hexpansion : Expansion.ofUse switches use = .ok (.complete events))
    (hroom : room.settled = room) (h : (read switches room words).error? = none) :
    read switches room (word :: words) = (read switches room words).prepend events := by
  rcases read_cases switches room words with ⟨error, hread⟩ | ⟨cs, hcs, hread⟩
  · rw [hread] at h
    cases h
  · have hcons :
        Classified switches (cutAtDashes (word :: words)).1 ((word, .option use) :: cs) := by
      rw [cutAtDashes_cons hword]
      exact .cons ⟨rfl, hclass⟩ hcs
    rw [read_of_classified hcons, cutAtDashes_cons hword, hread, readWords, hexpansion]
    simp only [Expansion.complete, hroom]

theorem foldlM_concat_eq_ok_iff {act : σ → Event ι → Except ε σ} {events : List (Event ι)}
    {s t : σ} :
    (events ++ [event]).foldlM act s = .ok t ↔
      ∃ before, events.foldlM act s = .ok before ∧ act before event = .ok t := by
  rw [List.foldlM_append]
  cases events.foldlM act s with
  | error stop => simp [bind, Except.bind]
  | ok before =>
    cases h : act before event <;> simp [bind, Except.bind, pure, Except.pure, h]

/-- If one event more is accepted after accepted ones exactly if all of them are, and leads to what
all of them mean, then any events do so. The induction adds the events one by one at the end. -/
theorem foldlM_eq_ok_iff {act : σ → Event ι → Except ε σ} {initial : σ}
    (Accepted : List (Event ι) → Prop) (meaning : List (Event ι) → σ) (hnil : Accepted [])
    (hinitial : meaning [] = initial)
    (hearlier : ∀ events event, Accepted (events ++ [event]) → Accepted events)
    (hact : ∀ events event state, Accepted events →
      (act (meaning events) event = .ok state ↔
        Accepted (events ++ [event]) ∧ state = meaning (events ++ [event])))
    (events : List (Event ι)) (state : σ) :
    events.foldlM act initial = .ok state ↔ Accepted events ∧ state = meaning events := by
  induction events using List.reverseRecOn generalizing state with
  | nil => simp [pure, Except.pure, hnil, hinitial, eq_comm]
  | append_singleton events event ih =>
    rw [foldlM_concat_eq_ok_iff]
    constructor
    · rintro ⟨before, hbefore, hlast⟩
      obtain ⟨haccepted, rfl⟩ := (ih before).mp hbefore
      exact (hact events event state haccepted).mp hlast
    · intro h
      have haccepted := hearlier events event h.1
      refine ⟨meaning events, (ih _).mpr ⟨haccepted, rfl⟩, ?_⟩
      exact (hact events event state haccepted).mpr h

theorem interpret_eq_ok_iff {act : σ → Event ι → Except ε σ} {onError : UsageError → ε}
    {s t : σ} {r : Reading ι} :
    r.interpret act onError s = .ok t ↔ r.error? = none ∧ r.events.foldlM act s = .ok t := by
  unfold Reading.interpret
  cases r.events.foldlM act s with
  | error stop => simp
  | ok found =>
    cases r.error? with
    | none => simp
    | some error => simp

end CommandLine
end MonkeyLexis
