import MonkeyLexis.Proofs.ListingReading
import MonkeyLexis.Session

/-!
# Reading displayed tokens

The name of a kind has no parenthesis in it, so the first one in a displayed token
opens its literal, and the last one closes it. What stands between them is a quoted
text, whatever the literal is made of. Names and quoted texts are printable, so that
every token keeps to its line and the lines displayed for some tokens give them back.
-/

namespace MonkeyLexis

theorem Kind.parenthesis_not_mem_name (k : Kind) : '(' ∉ k.name := by
  have h : ∀ k ∈ all, '(' ∉ k.name := by decide
  exact h k (mem_all k)

namespace Token

theorem display_eq (t : Token) :
    t.display = t.kind.name ++ '(' :: (Quoted.encode t.literal ++ [')']) := by
  simp [display]

theorem displayLine_eq (t : Token) : t.displayLine = t.display ++ ['\n'] := rfl

theorem isPrintableText_display (t : Token) : IsPrintableText t.display := by
  have hopen : IsPrintableText ['('] := by decide
  have hclose : IsPrintableText [')'] := by decide
  have hliteral := Quoted.isPrintableText_encode t.literal
  rw [display_eq]
  exact t.kind.isPrintableText_name.append (hopen.append (hliteral.append hclose))

def ofDisplay? (line : Text) : Option Token := do
  let (name, rest) := Text.cutAt '(' line
  let kind ← Kind.ofName? name
  let literal ← Quoted.decode? rest.dropLast
  return ⟨kind, literal⟩

theorem ofDisplay?_display (t : Token) : ofDisplay? t.display = some t := by
  have hcut : Text.cutAt '(' t.display = (t.kind.name, Quoted.encode t.literal ++ [')']) := by
    rw [display_eq]
    exact Text.cutAt_append_cons t.kind.parenthesis_not_mem_name _
  simp [ofDisplay?, hcut, Quoted.decode?_encode]

-- a literal may hold quotes, parentheses and line feeds
example : ofDisplay? "ILLEGAL(\"'a')\\n(\")" = some ⟨.illegal, "'a')\n("⟩ := by decide +kernel

/-- The tokens that are displayed on the lines of a text. -/
def ofDisplayLines? (shown : Text) : Option (List Token) := (Text.lines shown).mapM ofDisplay?

theorem lines_flatMap_displayLine (ts : List Token) :
    Text.lines (ts.flatMap displayLine) = ts.map display := by
  have hrows : ts.flatMap displayLine = (ts.map display).flatMap (· ++ ['\n']) := by
    rw [List.flatMap_map]
    rfl
  rw [hrows]
  apply Text.lines_flatMap_feed
  intro row hrow
  obtain ⟨t, _, rfl⟩ := List.mem_map.mp hrow
  have hprintable := t.isPrintableText_display
  exact ⟨hprintable.not_mem (by decide), hprintable.not_mem (by decide)⟩

theorem ofDisplayLines?_flatMap_displayLine (ts : List Token) :
    ofDisplayLines? (ts.flatMap displayLine) = some ts := by
  rw [ofDisplayLines?, lines_flatMap_displayLine]
  exact mapM_map_eq_some ofDisplay?_display ts

theorem flatMap_displayLine_injective {ts us : List Token}
    (h : ts.flatMap displayLine = us.flatMap displayLine) : ts = us := by
  have hread := congrArg ofDisplayLines? h
  rw [ofDisplayLines?_flatMap_displayLine, ofDisplayLines?_flatMap_displayLine] at hread
  exact Option.some.inj hread

end Token

/-- Lines of displayed tokens tell the tokens, of whatever kinds and with whatever literals, and no
other tokens are displayed in the same way. Each token has a line of its own, on which all is
printable. So the echo of a line of input tells the tokens of that line. -/
theorem displayed_lines_determine_tokens (ts : List Token) :
    let shown := ts.flatMap Token.displayLine
    Token.ofDisplayLines? shown = some ts ∧
      (∀ us : List Token, us.flatMap Token.displayLine = shown ↔ us = ts) ∧
      Text.lines shown = ts.map Token.display ∧
      (∀ t : Token, t.displayLine = t.display ++ ['\n'] ∧ IsPrintableText t.display ∧
        '\n' ∉ t.display) ∧
      ∀ line, Session.echo line = shown ↔ lexemes line = ts := by
  intro shown
  have hunique : ∀ us : List Token, us.flatMap Token.displayLine = shown ↔ us = ts := by
    intro us
    constructor
    · exact Token.flatMap_displayLine_injective
    · rintro rfl
      rfl
  refine ⟨Token.ofDisplayLines?_flatMap_displayLine ts, hunique,
    Token.lines_flatMap_displayLine ts, ?_, ?_⟩
  · intro t
    have hprintable := t.isPrintableText_display
    exact ⟨t.displayLine_eq, hprintable, hprintable.not_mem (by decide)⟩
  · intro line
    exact hunique (lexemes line)

end MonkeyLexis
