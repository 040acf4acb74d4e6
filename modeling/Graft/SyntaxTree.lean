/-
Syntax trees of source text.

A parser's tree says where the leaves of a source text are.  Its spans are in
bytes of UTF-8, so they are turned into offsets.  Literals count as leaves though
the parser looks into them, comments are left out, and empty leaves do not count.

* `leafSpans` — the byte spans of the leaves, in the order of the tree;
* `charIndex?` — the offset of the character that a byte belongs to;
* `readSpans` — the reading of one span after the other.
-/
import Graft.Fault
import Graft.Text.Utf8
import Graft.Token.Reading

namespace Graft

/-- A node of a syntax tree: its type, its byte span, its children, and whether there
are syntax errors in it. -/
inductive SyntaxTree where
  | node (type : Text) (start stop : Int) (children : List SyntaxTree) (hasError : Bool)
  deriving Repr, Inhabited

namespace SyntaxTree

/-- The types of nodes that are leaves whatever is below them. -/
def atomicTypes : List Text :=
  ["string_literal".toList, "char_literal".toList, "raw_string_literal".toList,
    "system_lib_string".toList]

/-- The type of comments. -/
def commentType : Text := "comment".toList

/-- There are syntax errors in the tree. -/
def hasError : SyntaxTree → Bool
  | node _ _ _ _ hasError => hasError

mutual

/-- The byte spans of the leaves of a tree. -/
def leafSpans : SyntaxTree → List (Int × Int)
  | node type start stop children _ =>
    if type == commentType then []
    else if children.isEmpty || atomicTypes.contains type then
      if start < stop then [(start, stop)] else []
    else leafSpansList children

/-- The byte spans of the leaves of trees, one after the other. -/
def leafSpansList : List SyntaxTree → List (Int × Int)
  | [] => []
  | tree :: trees => leafSpans tree ++ leafSpansList trees

end

/-- The offset of the character that each byte of a text belongs to, and behind them
the length of the text. -/
def charIndices (t : Text) : List Nat :=
  (t.zipIdx.flatMap fun (c, i) => List.replicate (String.utf8EncodeChar c).length i) ++ [t.length]

/-- The offset of the character that a byte belongs to.  In a text of one-byte
characters every byte offset is an offset; otherwise it has to lie in the text, where
a negative one counts from behind the end. -/
def charIndex? (t : Text) (byte : Int) : Option Int :=
  if Utf8.size t = t.length then some byte
  else
    let indices := charIndices t
    let place := if byte < 0 then indices.length + byte else byte
    if place < 0 then none else indices[place.toNat]?.map Int.ofNat

/-- Reads the byte spans of a text, the depth carried on. -/
def readSpans (t : Text) (depth : Int) : List (Int × Int) → Except Fault (List Token × Int)
  | [] => .ok ([], depth)
  | (startByte, stopByte) :: spans =>
    match charIndex? t startByte, charIndex? t stopByte with
    | some start, some stop =>
      let reading := Reading.between .source t depth start stop
      if reading.past then .error .spanPastEnd
      else (readSpans t reading.depth spans).map fun (tokens, final) =>
        (reading.tokens ++ tokens, final)
    | _, _ => .error .byteOutside

/-- The tokens of a text at the leaves of its tree. -/
def tokens (t : Text) (tree : SyntaxTree) : Except Fault (List Token) :=
  (readSpans t 0 tree.leafSpans).map fun (tokens, final) => Token.level tokens final

end SyntaxTree

end Graft
