/-
Lexemes of C-family text.

A text is cut into lexemes: runs of blanks, and tokens with their kind.  It is
read in one of two modes.  In a pattern the markers `...`, `>>>` and `<<<` are
tokens, and a literal is cut where `>>>` or `<<<` stands inside it; in source
text they have no meaning.  The first rule that applies decides: blanks, marker,
directive, literal, comment, two-character operator, word, number, bracket,
single character.

Scanning is confined to a `Window`, the part of a text that a span covers.  A span
may reach past the end of the text; a step that has to look at a missing
character stops the scan, and what it was about to produce is dropped.  Comments
need no such look: they take all there is.

* `step` — the lexemes at one position; `step_shorter` says that it advances;
* `scan` — the lexemes of a window, and whether the scan ran past the end.
-/
import Graft.Text.WordChar
import Graft.Token.Basic

namespace Graft

/-- How a text is read: as a pattern with markers, or as source text. -/
inductive Mode where
  | pattern
  | source
  deriving Repr, DecidableEq

/-- The part of a text that a span covers. -/
structure Window where
  /-- The characters of the span. -/
  inside : Text
  /-- What the text goes on with behind the span. -/
  beyond : Text
  /-- How many positions of the span lie past the end of the text. -/
  missing : Nat
  deriving Repr, DecidableEq

/-- The window of the positions from `start` to before `stop`. -/
def Window.ofSpan (t : Text) (start stop : Nat) : Window :=
  let inside := (t.drop start).take (stop - start)
  ⟨inside, (t.drop start).drop (stop - start), stop - start - inside.length⟩

/-- The window of a whole text. -/
def Window.whole (t : Text) : Window := ⟨t, [], 0⟩

/-- A run of blanks, or a token. -/
inductive Lexeme where
  | blank (run : Text)
  | token (kind : Kind) (text : Text)
  deriving Repr, DecidableEq

namespace Lexeme

/-- The characters of a lexeme. -/
def text : Lexeme → Text
  | blank run => run
  | token _ text => text

/-- The marker that the text starts with. -/
def marker? : Text → Option Kind
  | '.' :: '.' :: '.' :: _ => some .wildcard
  | '>' :: '>' :: '>' :: _ => some .inserter
  | '<' :: '<' :: '<' :: _ => some .folder
  | _ => none

/-- The marker that the text starts with, if the mode knows markers. -/
def modeMarker? : Mode → Text → Option Kind
  | .pattern, t => marker? t
  | .source, _ => none

/-- The marker that cuts a literal at the start of the text. -/
def literalMarker? (t : Text) : Option Kind :=
  match marker? t with
  | some .inserter => some .inserter
  | some .folder => some .folder
  | _ => none

/-- A character that a word or a directive's name starts with. -/
def isWordStart (c : Char) : Bool := c.isAlpha || c == '_'

/-- A character that a literal starts and ends with. -/
def isQuote (c : Char) : Bool := c == Text.doubleQuote || c == Text.singleQuote

/-- The brackets, braces included. -/
def isBracket (c : Char) : Bool := ['\x7b', '\x7d', '(', ')', '[', ']'].contains c

/-- The operators of two characters. -/
def isOperatorPair (c d : Char) : Bool :=
  [('=', '='), ('!', '='), ('<', '='), ('>', '='), ('+', '+'), ('-', '-'), ('-', '>'),
    ('&', '&'), ('|', '|'), ('<', '<'), ('>', '>')].contains (c, d)

/-- How much a lexeme changes the depth of what follows it. -/
def lift : Lexeme → Int
  | .token .bracket ['\x7b'] => 1
  | .token .bracket ['\x7d'] => -1
  | _ => 0

/-- The change of depth over a list of lexemes. -/
def balance (ls : List Lexeme) : Int := ls.foldr (fun l change => l.lift + change) 0

/-- The token of a lexeme at an offset and a depth; blanks have none, and in source
text comments have none. -/
def token? (mode : Mode) (offset : Int) (depth : Int) : Lexeme → Option Token
  | blank _ => none
  | token kind text =>
    match mode with
    | .pattern => some ⟨kind, text, depth, none⟩
    | .source => if kind = .comment then none else some ⟨kind, text, depth, some offset⟩

/-! ### Literals -/

/-- How a literal ends: by its closing quote, by the end of the span, or by a
backslash that escapes what lies behind the span. -/
inductive Ending where
  | closed
  | unclosed
  | dangling
  deriving Repr, DecidableEq

/-- What follows the opening quote of a literal. -/
structure LiteralTail where
  /-- The rest of the literal, its closing quote included. -/
  body : Text
  /-- What stands behind the literal. -/
  rest : Text
  ending : Ending
  deriving Repr, DecidableEq

/-- The literal goes on with `cs` before the given tail. -/
def LiteralTail.after (cs : Text) (tail : LiteralTail) : LiteralTail :=
  { tail with body := cs ++ tail.body }

/-- Reads a literal from behind its opening quote.  A backslash hides the character
after it, whatever it is. -/
def literalTail (quote : Char) : Text → LiteralTail
  | [] => ⟨[], [], .unclosed⟩
  | ['\\'] => ⟨['\\'], [], .dangling⟩
  | '\\' :: c :: cs => (literalTail quote cs).after ['\\', c]
  | c :: cs =>
    if c = quote then ⟨[c], cs, .closed⟩
    else (literalTail quote cs).after [c]

/-- The pieces of a literal: the text before the first marker, and each marker with
the text behind it. -/
structure Pieces where
  first : Text
  others : List (Kind × Text)
  deriving Repr, DecidableEq

/-- The first piece starts with `cs`. -/
def Pieces.after (cs : Text) (pieces : Pieces) : Pieces :=
  { pieces with first := cs ++ pieces.first }

/-- A marker stands before the pieces. -/
def Pieces.behind (kind : Kind) (pieces : Pieces) : Pieces :=
  ⟨[], (kind, pieces.first) :: pieces.others⟩

/-- Cuts a literal at its markers; `beyond` is what follows the literal.  A
backslash hides the character after it. -/
def literalPieces (beyond : Text) : Text → Pieces
  | [] => ⟨[], []⟩
  | '\\' :: c :: cs => (literalPieces beyond cs).after ['\\', c]
  | c :: cs =>
    match literalMarker? (c :: cs ++ beyond) with
    | some kind => (literalPieces beyond (cs.drop 2)).behind kind
    | none => (literalPieces beyond cs).after [c]
termination_by t => t.length
decreasing_by all_goals simp only [List.length_cons, List.length_drop]; omega

/-- A piece of a literal as a lexeme; an empty piece is none. -/
def fragment (piece : Text) : List Lexeme :=
  if piece.isEmpty then [] else [.token .stringFragment piece]

/-- The lexemes of a piece of a literal and of the pieces behind it; the last piece
is left out unless the literal is complete. -/
def fragments (complete : Bool) : Text → List (Kind × Text) → List Lexeme
  | piece, [] => if complete then fragment piece else []
  | piece, (kind, next) :: others =>
    fragment piece ++ .token kind kind.marker :: fragments complete next others

/-- The lexemes of a literal. -/
def literalLexemes (mode : Mode) (beyond : Text) (complete : Bool) (literal : Text) :
    List Lexeme :=
  let whole := if complete then [.token .stringLiteral literal] else []
  match mode with
  | .source => whole
  | .pattern =>
    match literalPieces beyond literal with
    | ⟨_, []⟩ => whole
    | ⟨first, others⟩ => fragments complete first others

/-! ### Comments -/

/-- Reads a block comment from behind its opening: the rest of the comment and what
stands behind it, or `none` if nothing closes it. -/
def closeComment? : Text → Option (Text × Text)
  | [] => none
  | '*' :: '/' :: cs => some (['*', '/'], cs)
  | c :: cs => (closeComment? cs).map fun (body, rest) => (c :: body, rest)

/-! ### Steps -/

/-- What a step makes of the characters in front of it. -/
inductive Step where
  /-- Lexemes, and the text behind them. -/
  | next (lexemes : List Lexeme) (rest : Text)
  /-- The last lexemes of the span. -/
  | last (lexemes : List Lexeme)
  /-- Lexemes in front of a place where the step looks at a missing character. -/
  | past (lexemes : List Lexeme)
  deriving Repr, DecidableEq

/-- The longest run of characters of a class behind `start`.  To see that a run
ends, the character behind it is looked at. -/
def runStep (missing : Nat) (make : Text → Lexeme) (start : Text) (p : Char → Bool)
    (cs : Text) : Step :=
  if (cs.dropWhile p).isEmpty && missing != 0 then .past []
  else .next [make (start ++ cs.takeWhile p)] (cs.dropWhile p)

/-- A single character. -/
def charStep (c : Char) (cs : Text) : Step :=
  .next [.token (if isBracket c then .bracket else .symbol) [c]] cs

/-- A directive, or the single character `#`. -/
def hashStep (missing : Nat) : Text → Step
  | [] => if missing = 0 then charStep '#' [] else .past []
  | c :: cs =>
    if isWordStart c then runStep missing (.token .directive) ['#'] Text.isWordChar (c :: cs)
    else charStep '#' (c :: cs)

/-- A literal, whole or cut at its markers. -/
def literalStep (mode : Mode) (beyond : Text) (missing : Nat) (quote : Char) (cs : Text) :
    Step :=
  let tail := literalTail quote cs
  let lexemes := fun complete => literalLexemes mode beyond complete (quote :: tail.body)
  match tail.ending with
  | .closed => .next (lexemes true) tail.rest
  | .unclosed => if missing = 0 then .last (lexemes true) else .past (lexemes false)
  | .dangling => if missing ≤ 1 then .last (lexemes true) else .past (lexemes false)

/-- A comment up to the end of its line. -/
def lineCommentStep (cs : Text) : Step :=
  let comment : Lexeme := .token .comment ('/' :: cs.takeWhile (· != '\n'))
  match cs.dropWhile (· != '\n') with
  | [] => .last [comment]
  | rest => .next [comment] rest

/-- A comment up to its closing; `cs` is what follows the opening. -/
def blockCommentStep (cs : Text) : Step :=
  match closeComment? cs with
  | some (body, rest) => .next [.token .comment ('/' :: '*' :: body)] rest
  | none => .last [.token .comment ('/' :: '*' :: cs)]

/-- A word, a number, a bracket or a single character. -/
def plainStep (missing : Nat) (c : Char) (cs : Text) : Step :=
  if isWordStart c then runStep missing (.token .identifier) [c] Text.isWordChar cs
  else if c.isDigit then runStep missing (.token .number) [c] Char.isDigit cs
  else charStep c cs

/-- A comment, an operator, or what `plainStep` makes of the character. -/
def pairStep (missing : Nat) (c : Char) : Text → Step
  | [] => plainStep missing c []
  | d :: cs =>
    if c = '/' && d = '/' then lineCommentStep (d :: cs)
    else if c = '/' && d = '*' then blockCommentStep cs
    else if isOperatorPair c d then .next [.token .operator [c, d]] cs
    else plainStep missing c (d :: cs)

/-- The lexemes at the character `c`, which `cs` follows in the span. -/
def step (mode : Mode) (beyond : Text) (missing : Nat) (c : Char) (cs : Text) : Step :=
  if Text.isBlank c then runStep missing .blank [c] Text.isBlank cs
  else match modeMarker? mode (c :: cs) with
    | some kind => .next [.token kind kind.marker] (cs.drop 2)
    | none =>
      if c = '#' then hashStep missing cs
      else if isQuote c then literalStep mode beyond missing c cs
      else pairStep missing c cs

/-! ### Every step advances -/

theorem literalTail_length (quote : Char) (cs : Text) :
    (literalTail quote cs).body.length + (literalTail quote cs).rest.length = cs.length := by
  fun_induction literalTail quote cs <;> simp_all [LiteralTail.after] <;> omega

theorem closeComment?_length {cs body rest : Text} (h : closeComment? cs = some (body, rest)) :
    body.length + rest.length = cs.length := by
  fun_induction closeComment? cs generalizing body rest with
  | case1 => simp at h
  | case2 cs => simp_all; obtain ⟨rfl, rfl⟩ := h; simp; omega
  | case3 c cs _ ih =>
    obtain ⟨⟨b, r⟩, hb, heq⟩ := Option.map_eq_some_iff.1 h
    obtain ⟨rfl, rfl⟩ := Prod.mk.inj heq
    have := ih hb
    simp; omega

theorem runStep_rest {missing : Nat} {make : Text → Lexeme} {start cs rest : Text}
    {p : Char → Bool} {ls : List Lexeme} (h : runStep missing make start p cs = .next ls rest) :
    rest.length ≤ cs.length := by
  unfold runStep at h
  split at h
  · simp at h
  · obtain ⟨-, rfl⟩ := Step.next.inj h
    exact (List.dropWhile_suffix p).length_le

theorem plainStep_rest {missing : Nat} {c : Char} {cs rest : Text} {ls : List Lexeme}
    (h : plainStep missing c cs = .next ls rest) : rest.length ≤ cs.length := by
  unfold plainStep at h
  split at h
  · exact runStep_rest h
  · split at h
    · exact runStep_rest h
    · obtain ⟨-, rfl⟩ := Step.next.inj h
      exact Nat.le_refl _

theorem hashStep_rest {missing : Nat} {cs rest : Text} {ls : List Lexeme}
    (h : hashStep missing cs = .next ls rest) : rest.length ≤ cs.length := by
  unfold hashStep at h
  split at h
  · split at h
    · obtain ⟨-, rfl⟩ := Step.next.inj h
      exact Nat.le_refl _
    · simp at h
  · split at h
    · exact runStep_rest h
    · obtain ⟨-, rfl⟩ := Step.next.inj h
      exact Nat.le_refl _

theorem literalStep_rest {mode : Mode} {beyond : Text} {missing : Nat} {quote : Char}
    {cs rest : Text} {ls : List Lexeme}
    (h : literalStep mode beyond missing quote cs = .next ls rest) : rest.length ≤ cs.length := by
  unfold literalStep at h
  simp only at h
  split at h
  · obtain ⟨-, rfl⟩ := Step.next.inj h
    have := literalTail_length quote cs
    omega
  · split at h <;> simp at h
  · split at h <;> simp at h

theorem pairStep_rest {missing : Nat} {c : Char} {cs rest : Text} {ls : List Lexeme}
    (h : pairStep missing c cs = .next ls rest) : rest.length ≤ cs.length := by
  unfold pairStep at h
  split at h
  · exact plainStep_rest h
  · split at h
    · unfold lineCommentStep at h
      simp only at h
      split at h
      · simp at h
      · obtain ⟨-, rfl⟩ := Step.next.inj h
        exact (List.dropWhile_suffix _).length_le
    · split at h
      · unfold blockCommentStep at h
        split at h
        · rename_i hclose
          obtain ⟨-, rfl⟩ := Step.next.inj h
          have := closeComment?_length hclose
          simp; omega
        · simp at h
      · split at h
        · obtain ⟨-, rfl⟩ := Step.next.inj h
          simp
        · exact plainStep_rest h

/-- A step that goes on leaves less text than it found. -/
theorem step_shorter {mode : Mode} {beyond : Text} {missing : Nat} {c : Char} {cs rest : Text}
    {ls : List Lexeme} (h : step mode beyond missing c cs = .next ls rest) :
    rest.length < (c :: cs).length := by
  suffices rest.length ≤ cs.length by simp; omega
  unfold step at h
  split at h
  · exact runStep_rest h
  · split at h
    · obtain ⟨-, rfl⟩ := Step.next.inj h
      simp
    · split at h
      · exact hashStep_rest h
      · split at h
        · exact literalStep_rest h
        · exact pairStep_rest h

/-! ### Scanning -/

/-- The lexemes of a window, and whether the scan ran past the end of the text. -/
structure Scan where
  lexemes : List Lexeme
  past : Bool
  deriving Repr, DecidableEq

/-- Scans the characters that are left of a window. -/
def scanFrom (mode : Mode) (beyond : Text) (missing : Nat) : Text → Scan
  | [] => ⟨[], missing != 0⟩
  | c :: cs =>
    match _h : step mode beyond missing c cs with
    | .next lexemes rest =>
      let scan := scanFrom mode beyond missing rest
      ⟨lexemes ++ scan.lexemes, scan.past⟩
    | .last lexemes => ⟨lexemes, false⟩
    | .past lexemes => ⟨lexemes, true⟩
termination_by t => t.length
decreasing_by exact step_shorter _h

/-- Scans a window. -/
def scan (mode : Mode) (window : Window) : Scan :=
  scanFrom mode window.beyond window.missing window.inside

/-- The lexemes of a whole text. -/
def lexemes (mode : Mode) (t : Text) : List Lexeme := (scan mode (.whole t)).lexemes

end Lexeme

end Graft
