/-
Lines of a text.

* `lines` — the lines of a text that break at a newline or at a carriage return
  and a newline; there is always a last line, empty after a final break;
* `physicalLines` — the lines with their line ends, broken at every line
  separator; nothing is lost, and no line is empty;
* `placeAt` — the line and column of an offset, both counted from one;
* `unifyLineEnds` — every line end becomes a newline.
-/
import Graft.Text.Basic

namespace Graft.Text

/-- The lines of a text without their line ends. -/
def lines : Text → List Text
  | [] => [[]]
  | '\r' :: '\n' :: cs => [] :: lines cs
  | c :: cs =>
    if c = '\n' then [] :: lines cs
    else match lines cs with
      | [] => [[c]]
      | line :: rest => (c :: line) :: rest

/-- A character that ends a physical line. -/
def isLineBreak (c : Char) : Bool :=
  let n := c.toNat
  (0x0A ≤ n && n ≤ 0x0D) || (0x1C ≤ n && n ≤ 0x1E) || n == 0x85 || n == 0x2028 || n == 0x2029

/-- The lines of a text, each with its line end; a carriage return and the
newline after it are one line end. -/
def physicalLines : Text → List Text
  | [] => []
  | '\r' :: '\n' :: cs => ['\r', '\n'] :: physicalLines cs
  | c :: cs =>
    if isLineBreak c then [c] :: physicalLines cs
    else match physicalLines cs with
      | [] => [[c]]
      | line :: rest => (c :: line) :: rest

/-- A place in a text: its line and column, both counted from one. -/
structure Place where
  line : Nat
  column : Nat
  deriving Repr, DecidableEq

/-- The place right after the text `before`. -/
def placeAfter (before : Text) : Place :=
  ⟨before.count '\n' + 1, (lastLine before).length + 1⟩

/-- The place of an offset; an offset outside the text is moved to its nearest
end. -/
def placeAt (t : Text) (offset : Int) : Place := placeAfter (t.take offset.toNat)

/-- Every line end, be it a newline, a carriage return or both, becomes a
newline. -/
def unifyLineEnds : Text → Text
  | [] => []
  | '\r' :: '\n' :: cs => '\n' :: unifyLineEnds cs
  | c :: cs => (if c = '\r' then '\n' else c) :: unifyLineEnds cs

end Graft.Text
