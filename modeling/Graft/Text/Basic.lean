/-
Texts and the cuts that every part of the library makes in them.

A text is the list of its characters, so every length, offset and column
counts code points and every cut is a list operation.  A surrogate is no character:
strings in which one stands alone, and which have no bytes, are no texts.

* `isBlank`, `trim`, `isAllBlank` — white space and its removal at the ends;
* `hasInfix` — a text occurs inside another;
* `upTo`, `startingAt`, `between` — the part before, after or between integer
  offsets, where a negative offset counts from the end and an offset outside is moved to the
  nearest end;
* `lastLine`, `withoutLastLine` — the part after, and up to, the last newline.
-/
namespace Graft

/-- A text is the list of its characters. -/
abbrev Text := List Char

namespace Text

/-- White space: the tab, line and file separators below the space, the space
itself, and the space characters beyond ASCII. -/
def isBlank (c : Char) : Bool :=
  let n := c.toNat
  (0x09 ≤ n && n ≤ 0x0D) || (0x1C ≤ n && n ≤ 0x20) || n == 0x85 || n == 0xA0 || n == 0x1680
    || (0x2000 ≤ n && n ≤ 0x200A) || n == 0x2028 || n == 0x2029 || n == 0x202F || n == 0x205F
    || n == 0x3000

/-- The text without the blanks it starts with. -/
def trimLeft (t : Text) : Text := t.dropWhile isBlank

/-- The text without the blanks it ends with. -/
def trimRight (t : Text) : Text := (t.reverse.dropWhile isBlank).reverse

/-- The text without the blanks at either end. -/
def trim (t : Text) : Text := trimRight (trimLeft t)

/-- The text without the copies of `c` it ends with. -/
def trimRightChar (c : Char) (t : Text) : Text := (t.reverse.dropWhile (· == c)).reverse

/-- The text holds nothing but blanks. -/
def isAllBlank (t : Text) : Bool := t.all isBlank

/-- `needle` occurs somewhere in the text. -/
def hasInfix (needle : Text) : Text → Bool
  | [] => needle.isEmpty
  | c :: cs => needle.isPrefixOf (c :: cs) || hasInfix needle cs

/-- The number of characters that the offset `k` stands for in a text of `length`
characters: a negative offset counts from the end. -/
def cutPoint (length : Nat) (k : Int) : Nat :=
  if k < 0 then (length + k).toNat else k.toNat

/-- The part of the text before offset `k`. -/
def upTo (t : Text) (k : Int) : Text := t.take (cutPoint t.length k)

/-- The part of the text from offset `k` on. -/
def startingAt (t : Text) (k : Int) : Text := t.drop (cutPoint t.length k)

/-- The part of the text from offset `start` to before offset `stop`. -/
def between (t : Text) (start stop : Int) : Text :=
  (t.upTo stop).drop (cutPoint t.length start)

/-- The part of the text after its last newline. -/
def lastLine (t : Text) : Text := (t.reverse.takeWhile (· != '\n')).reverse

/-- The part of the text up to its last newline, the newline included. -/
def withoutLastLine (t : Text) : Text := (t.reverse.dropWhile (· != '\n')).reverse

/-- The text ends with a newline. -/
def endsWithNewline (t : Text) : Bool := t.getLast? == some '\n'

/-- The longest text that both texts start with. -/
def commonStart : Text → Text → Text
  | a :: as, b :: bs => if a = b then a :: commonStart as bs else []
  | _, _ => []

/-- Splits at every occurrence of `c`; there is one piece more than there are
occurrences. -/
def splitAtChar (c : Char) : Text → List Text
  | [] => [[]]
  | d :: ds =>
    if d = c then [] :: splitAtChar c ds
    else match splitAtChar c ds with
      | [] => [[d]]
      | piece :: pieces => (d :: piece) :: pieces

/-- The pieces with `separator` between each two neighbours. -/
def join (separator : Text) (pieces : List Text) : Text := separator.intercalate pieces

/-- Order of texts by the code points of their characters. -/
def precedes (a b : Text) : Bool := !b.lex a fun c d => c.toNat < d.toNat

end Text

end Graft
