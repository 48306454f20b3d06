import MonkeyLexis.Scan.SharedCursor

/-!
# Cursors by index

A cursor can also be kept as a text with two positions in it and the character that
was read last. Everything is then done by reads, of which each stores one character
and moves both positions. A read at a position that the text does not have is a
fault. Every loop ends because a read moves the cursor unless the end has been met.
-/

namespace MonkeyLexis

open Alphabet

/-- A position was read that the text does not have. -/
structure OutOfRange where
  index : Nat
  deriving DecidableEq, Repr

namespace OutOfRange

variable {α β : Type}

theorem exists_of_map_eq_ok {x : Except OutOfRange α} {f : α → β} {b : β}
    (h : x.map f = .ok b) : ∃ a, x = .ok a ∧ f a = b := by
  cases x with
  | error fault => cases h
  | ok a => exact ⟨a, rfl, Except.ok.inj h⟩

theorem exists_of_bind_eq_ok {x : Except OutOfRange α} {f : α → Except OutOfRange β} {b : β}
    (h : x >>= f = .ok b) : ∃ a, x = .ok a ∧ f a = .ok b := by
  cases x with
  | error fault => cases h
  | ok a => exact ⟨a, rfl, h⟩

end OutOfRange

/-- A text, the position of the character read last, the position to be read next, and that
character, unless the read met the end or is still to come. -/
structure IndexedCursor where
  input : Text
  position : Nat
  nextPosition : Nat
  current? : Option Char
  deriving DecidableEq, Repr

namespace IndexedCursor

open OutOfRange

variable {c d : IndexedCursor} {p : Char → Bool} {first : Char} {token : Token}

def charAt (c : IndexedCursor) (index : Nat) : Except OutOfRange Char :=
  (c.input[index]?).elim (.error ⟨index⟩) .ok

/-- Reads one more character. Once the end has been met nothing moves; before the first read there
is no character either, but the position to be read is still zero. -/
def read (c : IndexedCursor) : Except OutOfRange IndexedCursor :=
  if c.current? = none ∧ 0 < c.nextPosition then .ok c
  else if c.input.length ≤ c.nextPosition then
    .ok ⟨c.input, c.nextPosition, c.nextPosition + 1, none⟩
  else
    (c.charAt c.nextPosition).map fun char =>
      ⟨c.input, c.nextPosition, c.nextPosition + 1, some char⟩

def start (source : Text) : Except OutOfRange IndexedCursor := read ⟨source, 0, 0, none⟩

/-- The character after the current one, which stays unread. -/
def peek (c : IndexedCursor) : Except OutOfRange (Option Char) :=
  if c.input.length ≤ c.nextPosition then .ok none else (c.charAt c.nextPosition).map some

/-- The number of reads that can still move the cursor. -/
def readsLeft (c : IndexedCursor) : Nat :=
  if c.current? = none ∧ 0 < c.nextPosition then 0 else c.input.length - c.nextPosition + 1

theorem read_cases (h : c.read = .ok d) : d = c ∧ c.current? = none ∨ d.readsLeft < c.readsLeft := by
  unfold read at h
  split at h
  · next hend => exact .inl ⟨(Except.ok.inj h).symm, hend.1⟩
  · next hmore =>
    right
    rw [readsLeft, readsLeft, if_neg hmore]
    split at h
    · cases h
      rw [if_pos ⟨rfl, Nat.succ_pos _⟩]
      exact Nat.succ_pos _
    · obtain ⟨char, _, rfl⟩ := exists_of_map_eq_ok h
      rw [if_neg (fun hnone => Option.some_ne_none _ hnone.1)]
      dsimp only
      omega

theorem readsLeft_read_le (h : c.read = .ok d) : d.readsLeft ≤ c.readsLeft := by
  rcases read_cases h with ⟨rfl, _⟩ | hlt
  · exact Nat.le_refl _
  · exact Nat.le_of_lt hlt

theorem readsLeft_read_lt (hc : c.current? = some first) (h : c.read = .ok d) :
    d.readsLeft < c.readsLeft := by
  rcases read_cases h with ⟨_, hnone⟩ | hlt
  · rw [hc] at hnone
    exact absurd hnone (Option.some_ne_none _)
  · exact hlt

/-- Reads on as long as the current character is in `p`. -/
def passRun (p : Char → Bool) (c : IndexedCursor) : Except OutOfRange IndexedCursor :=
  match _hc : c.current? with
  | none => .ok c
  | some char =>
    if p char then
      match _hd : c.read with
      | .error fault => .error fault
      | .ok d => passRun p d
    else .ok c
termination_by c.readsLeft
decreasing_by exact readsLeft_read_lt _hc _hd

theorem passRun_of_none (h : c.current? = none) : c.passRun p = .ok c := by
  rw [passRun]
  split
  · rfl
  · next hc => simp [h] at hc

theorem passRun_of_neg (h : c.current? = some first) (hp : ¬ p first) : c.passRun p = .ok c := by
  rw [passRun]
  split
  · rfl
  · next hc =>
    rw [h, Option.some.injEq] at hc
    subst hc
    exact if_neg hp

theorem passRun_of_pos (h : c.current? = some first) (hp : p first) :
    c.passRun p = c.read >>= passRun p := by
  rw [passRun]
  split
  · next hc => simp [h] at hc
  · next hc =>
    rw [h, Option.some.injEq] at hc
    subst hc
    rw [if_pos hp]
    split
    · next hd => rw [hd]; rfl
    · next hd => rw [hd]; rfl

theorem readsLeft_passRun_le (h : c.passRun p = .ok d) : d.readsLeft ≤ c.readsLeft := by
  fun_induction passRun p c with
  | case1 => cases h; exact Nat.le_refl _
  | case2 => cases h
  | case3 c char hc hp e he ih => exact Nat.le_trans (ih h) (readsLeft_read_le he)
  | case4 => cases h; exact Nat.le_refl _

def takeRun (p : Char → Bool) (c : IndexedCursor) : Except OutOfRange (Text × IndexedCursor) :=
  (c.passRun p).map fun d => ((c.input.take d.position).drop c.position, d)

theorem readsLeft_takeRun_lt {text : Text} (hc : c.current? = some first) (hp : p first)
    (h : c.takeRun p = .ok (text, d)) : d.readsLeft < c.readsLeft := by
  obtain ⟨e, he, heq⟩ := exists_of_map_eq_ok h
  obtain ⟨_, rfl⟩ := Prod.mk.inj heq
  rw [passRun_of_pos hc hp] at he
  obtain ⟨b, hb, hrun⟩ := exists_of_bind_eq_ok he
  exact Nat.lt_of_le_of_lt (readsLeft_passRun_le hrun) (readsLeft_read_lt hc hb)

def pair? (first : Char) (second? : Option Char) : Option (Operator × Text) :=
  second?.bind fun second => (Operator.ofSpelling? [first, second]).map (·, [first, second])

/-- The token that begins with `first`, which is neither a letter nor a digit. -/
def nextOperator (first : Char) (c : IndexedCursor) : Except OutOfRange (Token × IndexedCursor) := do
  match pair? first (← c.peek) with
  | some (o, text) =>
    let d ← c.read
    return (⟨.operator o, text⟩, ← d.read)
  | none =>
    let kind := (Operator.ofSpelling? [first]).elim .illegal .operator
    return (⟨kind, [first]⟩, ← c.read)

theorem readsLeft_nextOperator_lt (hc : c.current? = some first)
    (h : c.nextOperator first = .ok (token, d)) : d.readsLeft < c.readsLeft := by
  obtain ⟨second?, _, h⟩ := exists_of_bind_eq_ok h
  cases hpair : pair? first second? with
  | some pair =>
    simp only [hpair] at h
    obtain ⟨b, hb, h⟩ := exists_of_bind_eq_ok h
    obtain ⟨e, he, h⟩ := exists_of_bind_eq_ok h
    cases h
    exact Nat.lt_of_le_of_lt (readsLeft_read_le he) (readsLeft_read_lt hc hb)
  | none =>
    simp only [hpair] at h
    obtain ⟨b, hb, h⟩ := exists_of_bind_eq_ok h
    cases h
    exact readsLeft_read_lt hc hb

def next (c : IndexedCursor) : Except OutOfRange (Token × IndexedCursor) := do
  let c ← c.passRun isBlank
  match c.current? with
  | none => return (Token.endOfInput, c)
  | some first =>
    if isLetter first then
      let (text, d) ← c.takeRun isWordChar
      return (Token.word text, d)
    else if isDigit first then
      let (text, d) ← c.takeRun isDigit
      return (⟨.integer, text⟩, d)
    else c.nextOperator first

theorem readsLeft_next_lt (h : c.next = .ok (token, d)) (hkind : token.kind ≠ .endOfInput) :
    d.readsLeft < c.readsLeft := by
  obtain ⟨b, hb, h⟩ := exists_of_bind_eq_ok h
  refine Nat.lt_of_lt_of_le ?_ (readsLeft_passRun_le hb)
  cases hc : b.current? with
  | none =>
    simp only [hc] at h
    cases h
    exact absurd rfl hkind
  | some first =>
    simp only [hc] at h
    split at h
    · next hl =>
      obtain ⟨⟨text, e⟩, he, h⟩ := exists_of_bind_eq_ok h
      cases h
      exact readsLeft_takeRun_lt hc (by simp [isWordChar, hl]) he
    · split at h
      · next hd =>
        obtain ⟨⟨text, e⟩, he, h⟩ := exists_of_bind_eq_ok h
        cases h
        exact readsLeft_takeRun_lt hc hd he
      · exact readsLeft_nextOperator_lt hc h

/-- The tokens up to the end, with what `atEnd` makes of the end token behind them, and the cursor
there. -/
def collect (atEnd : Token → List Token) (c : IndexedCursor) :
    Except OutOfRange (List Token × IndexedCursor) :=
  match _h : c.next with
  | .error fault => .error fault
  | .ok (token, d) =>
    if _hkind : token.kind = .endOfInput then .ok (atEnd token, d)
    else (collect atEnd d).map fun (tokens, last) => (token :: tokens, last)
termination_by c.readsLeft
decreasing_by exact readsLeft_next_lt _h _hkind

theorem collect_of_next (atEnd : Token → List Token) (h : c.next = .ok (token, d)) :
    c.collect atEnd = if token.kind = .endOfInput then .ok (atEnd token, d)
      else (d.collect atEnd).map fun (tokens, last) => (token :: tokens, last) := by
  rw [collect]
  split
  · next he => simp [h] at he
  · next he =>
    rw [h] at he
    cases he
    split <;> rfl

def drain (c : IndexedCursor) : Except OutOfRange (List Token × IndexedCursor) :=
  c.collect fun _ => []

def scan (c : IndexedCursor) : Except OutOfRange (List Token × IndexedCursor) :=
  c.collect fun token => [token]

end IndexedCursor

/-- A cursor by index and, in the order of their opening, whether its streams are exhausted. -/
structure SharedIndex where
  cursor : IndexedCursor
  exhausted : List Bool
  deriving DecidableEq, Repr

namespace SharedIndex

def start (source : Text) : Except OutOfRange SharedIndex :=
  (IndexedCursor.start source).map (⟨·, []⟩)

/-- The next token for a stream. An exhausted stream leaves the cursor alone. -/
def pull (s : SharedIndex) (stream : Nat) : Except OutOfRange (Option Token × SharedIndex) :=
  match s.exhausted[stream]? with
  | some false => do
    let (token, cursor) ← s.cursor.next
    if token.kind = .endOfInput then return (none, ⟨cursor, s.exhausted.set stream true⟩)
    else return (some token, ⟨cursor, s.exhausted⟩)
  | _ => .ok (none, s)

def serve (s : SharedIndex) : Request → Except OutOfRange (Answer × SharedIndex)
  | .next => do
    let (token, cursor) ← s.cursor.next
    return (.token token, { s with cursor })
  | .scan => do
    let (tokens, cursor) ← s.cursor.scan
    return (.tokens tokens, { s with cursor })
  | .drain => do
    let (tokens, cursor) ← s.cursor.drain
    return (.tokens tokens, { s with cursor })
  | .openStream => .ok (.stream s.exhausted.length, { s with exhausted := s.exhausted ++ [false] })
  | .pull stream => do
    let (token, t) ← s.pull stream
    return (.pulled token, t)
  | .peek => do
    let char? ← s.cursor.peek
    return (.character char?, s)
  | .advance => do
    let cursor ← s.cursor.read
    return (.done, { s with cursor })
  | .skipBlanks => do
    let cursor ← s.cursor.passRun isBlank
    return (.done, { s with cursor })
  | .takeWord => do
    let (text, cursor) ← s.cursor.takeRun isWordChar
    return (.text text, { s with cursor })
  | .takeDigits => do
    let (text, cursor) ← s.cursor.takeRun isDigit
    return (.text text, { s with cursor })

def after (s : SharedIndex) : List Request → Except OutOfRange SharedIndex
  | [] => .ok s
  | request :: requests => do
    let (_, t) ← s.serve request
    t.after requests

end SharedIndex
end MonkeyLexis
