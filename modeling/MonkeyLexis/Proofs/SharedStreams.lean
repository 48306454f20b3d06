import MonkeyLexis.Proofs.WellFormed
import MonkeyLexis.Scan.SharedCursor

/-!
# Streams over one cursor

However requests and streams take turns at a cursor, the tokens handed out make up
the tokens of the source in order, none left out and none given twice. The law of
one request is that its tokens and those still ahead are the tokens that were ahead
before. Requests that may split a lexeme are outside this law, but a stream that
has met the end stays exhausted whatever is asked.
-/

namespace MonkeyLexis

open Alphabet

namespace Cursor

/-- A cursor gives the end token where only blanks are ahead, and the first token elsewhere. -/
theorem next_cases (c : Cursor) :
    (lexemes c.ahead = [] ∧ c.next.1 = Token.endOfInput ∧ lexemes c.next.2.ahead = []) ∨
      (c.next.1.kind ≠ .endOfInput ∧ lexemes c.ahead = c.next.1 :: lexemes c.next.2.ahead) := by
  cases h : Text.skipBlanks c.ahead with
  | nil =>
    left
    rw [next_of_nil h, ahead_skipBlanks, h]
    exact ⟨lexemes_of_skipBlanks_eq_nil h, rfl, lexemes_nil⟩
  | cons first rest =>
    right
    rw [next_of_cons h, ahead_pass, ahead_skipBlanks, h]
    exact ⟨Token.kind_leading_ne_endOfInput first rest, lexemes_of_skipBlanks_eq_cons h⟩

theorem lexemes_ahead_drain (c : Cursor) : lexemes c.drain.2.ahead = [] := by
  fun_induction drain c with
  | case1 c h =>
    rcases c.next_cases with ⟨_, _, hnil⟩ | ⟨hkind, _⟩
    · exact hnil
    · exact absurd h hkind
  | case2 c h tokens last hd ih => rwa [hd] at ih

end Cursor

/-- The request leaves lexemes whole. The others move by characters. -/
def Request.keepsLexemes : Request → Bool
  | .advance | .takeWord | .takeDigits => false
  | _ => true

/-- Every pull asks a stream that has been opened before, `opened` of them before the first
request. -/
def PullsOpened : (opened : Nat) → List Request → Prop
  | _, [] => True
  | opened, .openStream :: requests => PullsOpened (opened + 1) requests
  | opened, .pull stream :: requests => stream < opened ∧ PullsOpened opened requests
  | opened, _ :: requests => PullsOpened opened requests

namespace Answer

def given : Answer → List Token
  | .token t => [t]
  | .tokens ts => ts
  | .pulled t => t.toList
  | _ => []

/-- The tokens in an answer that are no end tokens. -/
def taken (a : Answer) : List Token := a.given.filter fun t => t.kind ≠ .endOfInput

/-- The answer shows that the end of the source has been met. -/
def MeetsEnd : Answer → Prop
  | .token t => t.kind = .endOfInput
  | .tokens _ => True
  | .pulled t => t = none
  | _ => False

theorem taken_lexemes (t : Text) : (Answer.tokens (lexemes t)).taken = lexemes t := by
  rw [taken, given, List.filter_eq_self]
  intro token h
  simpa using kind_ne_endOfInput_of_mem_lexemes h

theorem taken_lexemes_end (t : Text) :
    (Answer.tokens (lexemes t ++ [Token.endOfInput])).taken = lexemes t := by
  have h := taken_lexemes t
  rw [taken, given] at h ⊢
  rw [List.filter_append, h]
  simp [Token.endOfInput]

end Answer

namespace SharedCursor

variable {s : SharedCursor} {request : Request}

/-- What a pull can do: nothing, exhaust the stream at the end, or take the next token. -/
theorem pull_cases (s : SharedCursor) (stream : Nat) :
    (s.exhausted[stream]? ≠ some false ∧ s.pull stream = (none, s)) ∨
    (s.exhausted[stream]? = some false ∧ lexemes s.cursor.ahead = [] ∧
      lexemes s.cursor.next.2.ahead = [] ∧
      s.pull stream = (none, ⟨s.cursor.next.2, s.exhausted.set stream true⟩)) ∨
    (s.exhausted[stream]? = some false ∧ s.cursor.next.1.kind ≠ .endOfInput ∧
      lexemes s.cursor.ahead = s.cursor.next.1 :: lexemes s.cursor.next.2.ahead ∧
      s.pull stream = (some s.cursor.next.1, ⟨s.cursor.next.2, s.exhausted⟩)) := by
  by_cases h : s.exhausted[stream]? = some false
  · right
    rcases s.cursor.next_cases with ⟨hnil, hnext, hahead⟩ | ⟨hkind, hcons⟩
    · left
      have hkind : s.cursor.next.1.kind = .endOfInput := congrArg Token.kind hnext
      exact ⟨h, hnil, hahead, by simp [pull, h, hkind]⟩
    · right
      exact ⟨h, hkind, hcons, by simp [pull, h, hkind]⟩
  · left
    refine ⟨h, ?_⟩
    unfold pull
    split
    · contradiction
    · rfl

theorem exhausted_of_ne_false {stream : Nat} (hlt : stream < s.exhausted.length)
    (h : s.exhausted[stream]? ≠ some false) : s.exhausted[stream]? = some true := by
  rw [List.getElem?_eq_getElem hlt] at h ⊢
  simpa using h

/-- The tokens that a request hands out and those then ahead are those that were ahead. -/
theorem taken_serve (h : request.keepsLexemes) :
    (s.serve request).1.taken ++ lexemes (s.serve request).2.cursor.ahead =
      lexemes s.cursor.ahead := by
  cases request with
  | next =>
    change (Answer.token s.cursor.next.1).taken ++ lexemes s.cursor.next.2.ahead = _
    rcases s.cursor.next_cases with ⟨hnil, hend, hahead⟩ | ⟨hkind, hcons⟩
    · rw [hnil, hahead, hend]
      rfl
    · rw [hcons]
      simp [Answer.taken, Answer.given, hkind]
  | scan =>
    change (Answer.tokens (s.cursor.drain.1 ++ [Token.endOfInput])).taken ++
      lexemes s.cursor.drain.2.ahead = _
    rw [Cursor.drain_tokens, Cursor.lexemes_ahead_drain, Answer.taken_lexemes_end, List.append_nil]
  | drain =>
    change (Answer.tokens s.cursor.drain.1).taken ++ lexemes s.cursor.drain.2.ahead = _
    rw [Cursor.drain_tokens, Cursor.lexemes_ahead_drain, Answer.taken_lexemes, List.append_nil]
  | openStream => rfl
  | pull stream =>
    change (Answer.pulled (s.pull stream).1).taken ++ lexemes (s.pull stream).2.cursor.ahead = _
    rcases s.pull_cases stream with ⟨_, hpull⟩ | ⟨_, hnil, hahead, hpull⟩ |
      ⟨_, hkind, hcons, hpull⟩
    · rw [hpull]
      rfl
    · rw [hpull, hnil]
      exact hahead
    · rw [hpull, hcons]
      simp [Answer.taken, Answer.given, hkind]
  | peek => rfl
  | skipBlanks =>
    change lexemes s.cursor.skipBlanks.ahead = _
    rw [Cursor.ahead_skipBlanks, lexemes_skipBlanks]
  | advance => exact absurd h Bool.false_ne_true
  | takeWord => exact absurd h Bool.false_ne_true
  | takeDigits => exact absurd h Bool.false_ne_true

theorem lexemes_serve_of_nil (h : request.keepsLexemes) (hend : lexemes s.cursor.ahead = []) :
    lexemes (s.serve request).2.cursor.ahead = [] := by
  have htaken := taken_serve (s := s) h
  rw [hend, List.append_eq_nil_iff] at htaken
  exact htaken.2

theorem pulled_of_nil (hend : lexemes s.cursor.ahead = []) {t : Option Token}
    (h : (s.serve request).1 = .pulled t) : t = none := by
  cases request with
  | pull stream =>
    have ht : (s.pull stream).1 = t := Answer.pulled.inj h
    rcases s.pull_cases stream with ⟨_, hpull⟩ | ⟨_, _, _, hpull⟩ | ⟨_, _, hcons, _⟩
    · rw [← ht, hpull]
    · rw [← ht, hpull]
    · rw [hend] at hcons
      exact absurd hcons.symm (List.cons_ne_nil _ _)
  | _ => exact Answer.noConfusion h

/-- Exhausted streams are only found where no token is ahead. -/
def ExhaustedAtEnd (s : SharedCursor) : Prop := true ∈ s.exhausted → lexemes s.cursor.ahead = []

theorem exhaustedAtEnd_start (source : Text) : (start source).ExhaustedAtEnd :=
  fun h => absurd h List.not_mem_nil

theorem ExhaustedAtEnd.serve (hs : s.ExhaustedAtEnd) (h : request.keepsLexemes) :
    (s.serve request).2.ExhaustedAtEnd := by
  by_cases hend : lexemes s.cursor.ahead = []
  · intro _
    exact lexemes_serve_of_nil h hend
  · have hnone : true ∉ s.exhausted := fun hmem => hend (hs hmem)
    -- with a token ahead no stream is exhausted yet, and no request exhausts one
    cases request with
    | openStream =>
      intro hmem
      exact absurd (List.mem_append.mp hmem) (by simp [hnone])
    | pull stream =>
      change (s.pull stream).2.ExhaustedAtEnd
      rcases s.pull_cases stream with ⟨_, hpull⟩ | ⟨_, hnil, _⟩ | ⟨_, _, _, hpull⟩
      · rwa [hpull]
      · exact absurd hnil hend
      · rw [hpull]
        intro hmem
        exact absurd hmem hnone
    | _ => exact fun hmem => absurd hmem hnone

theorem lexemes_serve_of_meetsEnd (hs : s.ExhaustedAtEnd)
    (hopen : ∀ stream, request = .pull stream → stream < s.exhausted.length)
    (hend : (s.serve request).1.MeetsEnd) : lexemes (s.serve request).2.cursor.ahead = [] := by
  cases request with
  | next =>
    rcases s.cursor.next_cases with ⟨_, _, hahead⟩ | ⟨hkind, _⟩
    · exact hahead
    · exact absurd hend hkind
  | scan => exact s.cursor.lexemes_ahead_drain
  | drain => exact s.cursor.lexemes_ahead_drain
  | pull stream =>
    have hnone : (s.pull stream).1 = none := hend
    change lexemes (s.pull stream).2.cursor.ahead = []
    rcases s.pull_cases stream with ⟨hstream, hpull⟩ | ⟨_, _, hahead, hpull⟩ | ⟨_, _, _, hpull⟩
    · -- a stream exhausted earlier says nothing about the cursor but through the invariant
      rw [hpull]
      exact hs (List.mem_of_getElem? (exhausted_of_ne_false (hopen stream rfl) hstream))
    · rw [hpull]
      exact hahead
    · rw [hpull] at hnone
      exact absurd hnone (Option.some_ne_none _)
  | _ => exact absurd hend id

theorem pullsOpened_serve {requests : List Request}
    (h : PullsOpened s.exhausted.length (request :: requests)) :
    (∀ stream, request = .pull stream → stream < s.exhausted.length) ∧
      PullsOpened (s.serve request).2.exhausted.length requests := by
  cases request with
  | pull stream =>
    obtain ⟨hlt, hrest⟩ := h
    constructor
    · rintro _ ⟨⟩
      exact hlt
    · change PullsOpened (s.pull stream).2.exhausted.length requests
      rcases s.pull_cases stream with ⟨_, hpull⟩ | ⟨_, _, _, hpull⟩ | ⟨_, _, _, hpull⟩
      · rwa [hpull]
      · rwa [hpull, List.length_set]
      · rwa [hpull]
  | openStream => exact ⟨by simp, by simpa [SharedCursor.serve, PullsOpened] using h⟩
  | _ => exact ⟨by simp, h⟩

def answers (s : SharedCursor) (requests : List Request) : List Answer :=
  (s.history requests).map Prod.fst

theorem answers_cons (s : SharedCursor) (request : Request) (requests : List Request) :
    s.answers (request :: requests) =
      (s.serve request).1 :: (s.serve request).2.answers requests := rfl

theorem taken_answers {requests : List Request} (h : ∀ r ∈ requests, r.keepsLexemes) :
    (s.answers requests).flatMap Answer.taken ++ lexemes (s.after requests).cursor.ahead =
      lexemes s.cursor.ahead := by
  induction requests generalizing s with
  | nil => rfl
  | cons request requests ih =>
    obtain ⟨hr, hrs⟩ := List.forall_mem_cons.mp h
    rw [answers_cons, List.flatMap_cons, after_cons, List.append_assoc, ih hrs, taken_serve hr]

theorem pulled_answers_of_nil {requests : List Request} (h : ∀ r ∈ requests, r.keepsLexemes)
    (hend : lexemes s.cursor.ahead = []) :
    ∀ t, .pulled t ∈ s.answers requests → t = none := by
  induction requests generalizing s with
  | nil => exact fun t ht => absurd ht List.not_mem_nil
  | cons request requests ih =>
    obtain ⟨hr, hrs⟩ := List.forall_mem_cons.mp h
    intro t ht
    rcases List.mem_cons.mp ht with ht | ht
    · exact pulled_of_nil hend ht.symm
    · exact ih hrs (lexemes_serve_of_nil hr hend) t ht

/-- Once an answer meets the end, all tokens have been taken and all streams are exhausted. -/
theorem answers_of_meetsEnd {requests : List Request} {earlier later : List Answer} {a : Answer}
    (hs : s.ExhaustedAtEnd) (h : ∀ r ∈ requests, r.keepsLexemes)
    (hopen : PullsOpened s.exhausted.length requests)
    (heq : s.answers requests = earlier ++ a :: later) (hend : a.MeetsEnd) :
    (earlier ++ [a]).flatMap Answer.taken = lexemes s.cursor.ahead ∧
      ∀ t, .pulled t ∈ later → t = none := by
  induction requests generalizing s earlier with
  | nil => exact absurd heq (by simp [answers, history])
  | cons request requests ih =>
    obtain ⟨hr, hrs⟩ := List.forall_mem_cons.mp h
    obtain ⟨hpull, hopen⟩ := pullsOpened_serve hopen
    rw [answers_cons] at heq
    have htaken := taken_serve (s := s) hr
    -- the end is met by this request or by a later one
    cases earlier with
    | nil =>
      obtain ⟨rfl, rfl⟩ := List.cons.inj heq
      have hnil := lexemes_serve_of_meetsEnd hs hpull hend
      rw [hnil, List.append_nil] at htaken
      exact ⟨by simpa using htaken, pulled_answers_of_nil hrs hnil⟩
    | cons b earlier =>
      obtain ⟨rfl, hrest⟩ := List.cons.inj heq
      obtain ⟨hall, hlater⟩ := ih (hs.serve hr) hrs hopen hrest
      rw [List.cons_append, List.flatMap_cons, hall]
      exact ⟨htaken, hlater⟩

theorem exhausted_serve {stream : Nat} (h : s.exhausted[stream]? = some true) (request : Request) :
    (s.serve request).2.exhausted[stream]? = some true := by
  have hlt := (List.getElem?_eq_some_iff.mp h).1
  cases request with
  | openStream =>
    change (s.exhausted ++ [false])[stream]? = some true
    rwa [List.getElem?_append_left hlt]
  | pull other =>
    change (s.pull other).2.exhausted[stream]? = some true
    rcases s.pull_cases other with ⟨_, hpull⟩ | ⟨_, _, _, hpull⟩ | ⟨_, _, _, hpull⟩
    · rwa [hpull]
    · rw [hpull, List.getElem?_set]
      split
      · rw [if_pos (by omega)]
      · exact h
    · rwa [hpull]
  | _ => exact h

theorem exhausted_after {stream : Nat} (h : s.exhausted[stream]? = some true)
    (requests : List Request) : (s.after requests).exhausted[stream]? = some true := by
  induction requests generalizing s with
  | nil => exact h
  | cons request requests ih => exact ih (exhausted_serve h request)

theorem exhausted_of_pull {stream : Nat} (hlt : stream < s.exhausted.length)
    (h : (s.pull stream).1 = none) : (s.pull stream).2.exhausted[stream]? = some true := by
  rcases s.pull_cases stream with ⟨hstream, hpull⟩ | ⟨_, _, _, hpull⟩ | ⟨_, _, _, hpull⟩
  · rw [hpull]
    exact exhausted_of_ne_false hlt hstream
  · rw [hpull, List.getElem?_set_self hlt]
  · rw [hpull] at h
    exact absurd h (Option.some_ne_none _)

theorem pull_of_exhausted {stream : Nat} (h : s.exhausted[stream]? = some true) :
    s.pull stream = (none, s) := by
  rcases s.pull_cases stream with ⟨_, hpull⟩ | ⟨hfalse, _⟩ | ⟨hfalse, _⟩
  · exact hpull
  · exact absurd (h.symm.trans hfalse) (by simp)
  · exact absurd (h.symm.trans hfalse) (by simp)

/-- A stream that has answered with nothing answers with nothing for ever. -/
theorem pull_after_exhausted {stream : Nat} (hlt : stream < s.exhausted.length)
    (h : (s.pull stream).1 = none) (requests : List Request) :
    (((s.pull stream).2.after requests).pull stream).1 = none := by
  rw [pull_of_exhausted (exhausted_after (exhausted_of_pull hlt h) requests)]

end SharedCursor

/-- The users of a cursor share the tokens of its source. What they have taken is an initial piece
of them, and is all of them once an answer meets the end; all streams are exhausted from then on.
An exhausted stream stays so whatever is asked, even by characters. -/
theorem streams_share_tokens (source : Text) :
    (∀ requests : List Request, (∀ r ∈ requests, r.keepsLexemes) → PullsOpened 0 requests →
      ((SharedCursor.start source).answers requests).flatMap Answer.taken <+: lexemes source ∧
      ∀ earlier a later, (SharedCursor.start source).answers requests = earlier ++ a :: later →
        a.MeetsEnd →
          (earlier ++ [a]).flatMap Answer.taken = lexemes source ∧
          ∀ t, .pulled t ∈ later → t = none) ∧
    ∀ (before later : List Request) (stream : Nat),
      let s := (SharedCursor.start source).after before
      stream < s.exhausted.length → (s.pull stream).1 = none →
        (((s.pull stream).2.after later).pull stream).1 = none := by
  constructor
  · intro requests h hopen
    constructor
    · exact ⟨_, SharedCursor.taken_answers h⟩
    · intro earlier a later heq hend
      exact SharedCursor.answers_of_meetsEnd (SharedCursor.exhaustedAtEnd_start source) h hopen
        heq hend
  · intro before later stream s hlt hnone
    exact SharedCursor.pull_after_exhausted hlt hnone later

/-- Two streams and a direct user take three tokens in turn, and a third stream comes too late. A
stream over blanks is exhausted at once and is so after an advance and a new stream. -/
theorem three_users_share_tokens :
    let requests : List Request := [.openStream, .pull 0, .openStream, .peek, .pull 1, .skipBlanks,
      .next, .pull 0, .openStream, .pull 2]
    let earlier : List Answer := [.stream 0, .pulled (some ⟨.identifier, "a"⟩), .stream 1,
      .character (some '='), .pulled (some ⟨.operator .equal, "=="⟩), .done,
      .token ⟨.integer, "1"⟩]
    let later : List Answer := [.stream 2, .pulled none]
    let s := (SharedCursor.start "\t").after [.openStream]
    (∀ r ∈ requests, r.keepsLexemes) ∧ PullsOpened 0 requests ∧
      (SharedCursor.start "a ==1").answers requests = earlier ++ .pulled none :: later ∧
      (earlier ++ [Answer.pulled none]).flatMap Answer.taken = lexemes "a ==1" ∧
      (∀ t, .pulled t ∈ later → t = none) ∧
      0 < s.exhausted.length ∧ (s.pull 0).1 = none ∧
      (((s.pull 0).2.after [.advance, .openStream]).pull 0).1 = none := by
  intro requests earlier later s
  have hkeeps : ∀ r ∈ requests, r.keepsLexemes := by decide
  have hopen : PullsOpened 0 requests := by simp [requests, PullsOpened]
  have heq : (SharedCursor.start "a ==1").answers requests = earlier ++ .pulled none :: later := rfl
  have hlt : 0 < s.exhausted.length := by decide
  have hnone : (s.pull 0).1 = none := rfl
  obtain ⟨hall, hlater⟩ :=
    ((streams_share_tokens "a ==1").1 requests hkeeps hopen).2 earlier _ later heq rfl
  exact ⟨hkeeps, hopen, heq, hall, hlater, hlt, hnone,
    (streams_share_tokens "\t").2 [.openStream] [.advance, .openStream] 0 hlt hnone⟩

end MonkeyLexis
