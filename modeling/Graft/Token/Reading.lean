/-
Tokens of a text.

The lexemes of a text become tokens: blanks go, comments stay in a pattern only,
each token gets the number of braces open in front of it, and in source text the
offset where it starts.  A closing brace that nothing opened makes this number
negative, so a finished reading is levelled: the shallowest depth, the one behind
the last token included, becomes zero.

* `Reading.ofSpan` — the tokens of a span, with the depth carried on;
* `Reading.between` — the same for a span that may start before the text;
* `Reading.ofText` — the tokens of a whole text;
* `Token.level`, `Reading.levelled` — depths moved so that none is negative.
-/
import Graft.Token.Wrapped

namespace Graft

namespace Lexeme

/-- The tokens of lexemes that start at an offset and a depth. -/
def tokens (mode : Mode) : Nat → Int → List Lexeme → List Token
  | _, _, [] => []
  | offset, depth, l :: ls =>
    (token? mode offset depth l).toList
      ++ tokens mode (offset + l.text.length) (depth + l.lift) ls

end Lexeme

/-- The tokens of a text, the depth behind them, and whether the text was left
before its span ended. -/
structure Reading where
  tokens : List Token
  depth : Int
  past : Bool
  deriving Repr, DecidableEq

/-- Moves depths so that the shallowest of them, and of the depth behind the
tokens, is zero; depths that are not negative stay. -/
def Token.level (tokens : List Token) (final : Int) : List Token :=
  let floor := match tokens.map (·.depth) with
    | [] => min 0 final
    | depth :: depths => min (depths.foldl min depth) final
  if 0 ≤ floor then tokens
  else tokens.map fun token => { token with depth := token.depth - floor }

namespace Reading

/-- Reads the positions of a text from `start` to before `stop`, at depth `depth`. -/
def ofSpan (mode : Mode) (t : Text) (depth : Int) (start stop : Nat) : Reading :=
  let scan := Lexeme.scan mode (.ofSpan t start stop)
  ⟨Lexeme.tokens mode start depth scan.lexemes, depth + Lexeme.balance scan.lexemes, scan.past⟩

/-- Reads a whole text. -/
def ofText (mode : Mode) (t : Text) : Reading := ofSpan mode t 0 0 t.length

/-- Reads on behind a reading. -/
def andThen (reading : Reading) (next : Int → Reading) : Reading :=
  if reading.past then reading
  else
    let after := next reading.depth
    { after with tokens := reading.tokens ++ after.tokens }

/-- Reads the positions from `start` to before `stop`, which may lie before the text:
first those before the text, then those in it. -/
def between (mode : Mode) (t : Text) (depth start stop : Int) : Reading :=
  let scan := Wrapped.scan ⟨t, stop⟩ mode start
  let before : Reading :=
    ⟨Wrapped.tokens mode depth scan.placed,
      depth + Lexeme.balance (scan.placed.map (·.lexeme)), scan.past⟩
  before.andThen fun depth => ofSpan mode t depth scan.position.toNat stop.toNat

/-- Reads one span after the other, the depth carried on. -/
def ofSpans (mode : Mode) (t : Text) (depth : Int) : List (Int × Int) → List Reading
  | [] => []
  | (start, stop) :: spans =>
    let reading := between mode t depth start stop
    reading :: ofSpans mode t reading.depth spans

/-- The tokens with their depths levelled. -/
def levelled (reading : Reading) : List Token := Token.level reading.tokens reading.depth

end Reading

end Graft
