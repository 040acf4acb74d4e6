/-
Spans that start before the text.

A position before the start of a text counts from its end: -1 is the last character.
A span that starts there is read over the end of the text on to its start.

Characters are read one by one, so blanks, words, numbers and literals run over this
seam.  What is cut out of the text between two positions does not: a cut goes from
the place in the text that the first position means to the place of the second, and
is empty if that does not lie behind.  So a token that runs over the seam seldom has
the characters that were read, and a marker or an operator that touches the seam is
not seen.  A comment is searched for its end from one place in the text to another
too, and reading goes on at the place where it ends.

* `step` — the lexemes at a position before the text;
* `scan` — the lexemes up to the seam, and where reading goes on.
-/
import Graft.Token.Lexeme

namespace Graft.Wrapped

/-- A text that is read up to before the position `stop`. -/
structure Stretch where
  text : Text
  stop : Int
  deriving Repr, DecidableEq

/-- How many positions lie past the end of the text. -/
def Stretch.missing (s : Stretch) : Nat := (s.stop - s.text.length).toNat

/-- The text between two positions. -/
def Stretch.cut (s : Stretch) (start stop : Int) : Text := s.text.between start stop

/-- The characters that are read from a position before the text on; none if the
position lies too far in front. -/
def Stretch.read (s : Stretch) (position : Int) : Text :=
  if s.text.length + position < 0 then []
  else (s.text.startingAt position ++ s.text).take (s.stop - position).toNat

/-- A lexeme and the position where it starts. -/
structure Placed where
  position : Int
  lexeme : Lexeme
  deriving Repr, DecidableEq

/-- What a step makes of the characters in front of it. -/
inductive Step where
  /-- Lexemes, and how many positions behind the first one are taken. -/
  | next (placed : List Placed) (others : Nat)
  /-- Lexemes in front of a place where the step looks at a missing character. -/
  | past (placed : List Placed)
  deriving Repr, DecidableEq

/-- A run of characters of a class; `cs` is what is read behind the first one.  A run
without a kind is blank. -/
def runStep (s : Stretch) (position : Int) (kind : Option Kind) (p : Char → Bool)
    (cs : Text) : Step :=
  let others := (cs.takeWhile p).length
  if (cs.dropWhile p).isEmpty && s.missing != 0 then .past []
  else
    let text := s.cut position (position + 1 + others)
    .next (kind.toList.map fun kind => ⟨position, .token kind text⟩) others

/-! ### Literals -/

/-- The markers inside a literal, each with its position.  A backslash hides the
character after it. -/
def markers (s : Stretch) : Int → Text → List (Int × Kind)
  | _, [] => []
  | position, '\\' :: _ :: cs => markers s (position + 2) cs
  | position, _ :: cs =>
    match Lexeme.literalMarker? (s.cut position (position + 3)) with
    | some kind => (position, kind) :: markers s (position + 3) (cs.drop 2)
    | none => markers s (position + 1) cs
termination_by _ t => t.length
decreasing_by all_goals simp only [List.length_cons, List.length_drop]; omega

/-- A piece of a literal; one that takes no position is none. -/
def piece (s : Stretch) (kind : Kind) (start stop : Int) : List Placed :=
  if start < stop then [⟨start, .token kind (s.cut start stop)⟩] else []

/-- The pieces of a literal between its markers; `last` is the kind of the last one,
which is left out if the literal is not complete. -/
def pieces (s : Stretch) (stop : Int) (last : Option Kind) : Int → List (Int × Kind) → List Placed
  | start, [] => last.toList.flatMap fun kind => piece s kind start stop
  | start, (position, kind) :: marks =>
    piece s .stringFragment start position
      ++ ⟨position, .token kind kind.marker⟩ :: pieces s stop last (position + 3) marks

/-- A literal, whole or cut at its markers. -/
def literalStep (s : Stretch) (mode : Mode) (position : Int) (quote : Char) (cs : Text) : Step :=
  let tail := Lexeme.literalTail quote cs
  let marks := match mode with
    | .pattern => markers s (position + 1) tail.body
    | .source => []
  let whole := if marks.isEmpty then Kind.stringLiteral else Kind.stringFragment
  let cutOff := Step.past (pieces s s.stop none position marks)
  let ended := fun (stop : Int) =>
    Step.next (pieces s stop (some whole) position marks) (stop - position - 1).toNat
  match tail.ending with
  | .closed => ended (position + 1 + tail.body.length)
  | .unclosed => if s.missing = 0 then ended s.stop else cutOff
  | .dangling => if s.missing ≤ 1 then ended s.stop else cutOff

/-! ### Comments -/

/-- Where a comment ends: its end is searched in the part of the text between its
opening and the end of the span. -/
def commentStop (s : Stretch) (position : Int) : Int :=
  let place := Text.cutPoint s.text.length (position + 2)
  let body := s.cut (position + 2) s.stop
  if ['/', '/'].isPrefixOf (s.text.startingAt position) then
    if body.contains '\n' then place + (body.takeWhile (· != '\n')).length else s.stop
  else match Lexeme.closeComment? body with
    | some (inner, _) => place + inner.length
    | none => s.stop

/-- A comment. -/
def commentStep (s : Stretch) (position : Int) : Step :=
  let stop := commentStop s position
  .next [⟨position, .token .comment (s.cut position stop)⟩] (stop - position - 1).toNat

/-! ### Steps -/

/-- The marker at a position. -/
def marker? (s : Stretch) (mode : Mode) (position : Int) : Option Kind :=
  if position + 3 ≤ s.stop then Lexeme.modeMarker? mode (s.cut position (position + 3)) else none

/-- A comment starts at the slash at a position. -/
def opensComment (s : Stretch) (position : Int) : Bool :=
  position + 1 < s.stop && [['/'], ['*']].contains (s.cut (position + 1) (position + 2))

/-- The operator of two characters at a position. -/
def operator? (s : Stretch) (position : Int) : Option Text :=
  match s.cut position (position + 2) with
  | [c, d] =>
    if position + 2 ≤ s.stop && Lexeme.isOperatorPair c d then some [c, d] else none
  | _ => none

/-- A word, a number, a bracket or a single character. -/
def plainStep (s : Stretch) (position : Int) (c : Char) (cs : Text) : Step :=
  if Lexeme.isWordStart c then runStep s position (some .identifier) Text.isWordChar cs
  else if c.isDigit then runStep s position (some .number) Char.isDigit cs
  else .next [⟨position, .token (if Lexeme.isBracket c then .bracket else .symbol) [c]⟩] 0

/-- The lexemes at the character `c` at a position, behind which `cs` is read. -/
def step (s : Stretch) (mode : Mode) (position : Int) (c : Char) (cs : Text) : Step :=
  if Text.isBlank c then runStep s position none Text.isBlank cs
  else match marker? s mode position with
    | some kind => .next [⟨position, .token kind kind.marker⟩] 2
    | none =>
      if c = '#' && cs.head?.any Lexeme.isWordStart then
        runStep s position (some .directive) Text.isWordChar cs
      else if Lexeme.isQuote c then literalStep s mode position c cs
      else if c = '/' && opensComment s position then commentStep s position
      else match operator? s position with
        | some text => .next [⟨position, .token .operator text⟩] 1
        | none => plainStep s position c cs

/-! ### Scanning -/

/-- The lexemes of a stretch up to the seam, the position where reading goes on, and
whether it ran past the end of the text. -/
structure Scan where
  placed : List Placed
  position : Int
  past : Bool
  deriving Repr, DecidableEq

/-- Scans a stretch from a position on, up to the seam. -/
def scan (s : Stretch) (mode : Mode) (position : Int) : Scan :=
  if _h : position < 0 ∧ position < s.stop then
    match s.read position with
    | [] => ⟨[], position, true⟩
    | c :: cs =>
      match step s mode position c cs with
      | .past placed => ⟨placed, position, true⟩
      | .next placed others =>
        let rest := scan s mode (position + 1 + others)
        { rest with placed := placed ++ rest.placed }
  else ⟨[], position, false⟩
termination_by (-position).toNat
decreasing_by omega

/-- The tokens of placed lexemes, the first at depth `depth`. -/
def tokens (mode : Mode) : Int → List Placed → List Token
  | _, [] => []
  | depth, l :: ls =>
    (l.lexeme.token? mode l.position depth).toList ++ tokens mode (depth + l.lexeme.lift) ls

end Graft.Wrapped
