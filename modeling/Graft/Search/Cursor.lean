/-
Cursors of a search.

A cursor is a place in the source tokens, possibly inside a string literal that the
pattern takes piece by piece, with what has been learned on the way there: the
offsets that markers recorded, and how much deeper the source is nested than the
pattern.

* `takeLiteral?`, `takeFragment?` — move over a token, or over a piece of a literal;
* `landings` — the places where a wildcard may end.
-/
import Graft.Pattern

namespace Graft.Search

/-- The offsets that the markers of a pattern recorded. -/
structure Marks where
  insertion : Option Int := none
  deletion : Option Int := none
  deriving Repr, DecidableEq

/-- A place in the source tokens. -/
structure Cursor where
  /-- The source tokens that are left. -/
  rest : List Token
  /-- How many characters of the first of them are taken. -/
  taken : Nat := 0
  marks : Marks := {}
  /-- How much deeper the source is nested than the pattern, once known. -/
  shift : Option Int
  deriving Repr, DecidableEq

/-- The shift under which the depths of a source token and a pattern token agree; a
shift that is not known yet is learned. -/
def agree? (shift : Option Int) (candidate token : Token) : Option Int :=
  match shift with
  | none => some (candidate.depth - token.depth)
  | some s => if candidate.depth = token.depth + s then some s else none

namespace Cursor

/-- The source offset of a cursor, in a source text of `length` characters. -/
def offset (length : Int) (cursor : Cursor) : Int :=
  match cursor.rest with
  | [] => length
  | token :: _ => token.offset.getD 0 + cursor.taken

/-- Records the place of insertion. -/
def markInsertion (length : Int) (cursor : Cursor) : Cursor :=
  { cursor with marks := { cursor.marks with insertion := some (cursor.offset length) } }

/-- Records the end of the deletion. -/
def markDeletion (length : Int) (cursor : Cursor) : Cursor :=
  { cursor with marks := { cursor.marks with deletion := some (cursor.offset length) } }

/-- Moves over the next source token, which has the text of the given one at the
depth that it has to have. -/
def takeLiteral? (cursor : Cursor) (token : Token) : Option Cursor :=
  match cursor.rest with
  | [] => none
  | candidate :: rest =>
    if cursor.taken ≠ 0 ∨ candidate.text ≠ token.text then none
    else (agree? cursor.shift candidate token).map fun s =>
      { cursor with rest := rest, shift := some s }

/-- Moves over a piece of the next source token, which is a string literal.  The
depth is compared at the literal's first piece. -/
def takeFragment? (cursor : Cursor) (token : Token) : Option Cursor :=
  match cursor.rest with
  | [] => none
  | candidate :: rest =>
    if candidate.kind ≠ .stringLiteral
        ∨ ¬ token.text.isPrefixOf (candidate.text.drop cursor.taken) then none
    else
      let shift := if cursor.taken = 0 then (agree? cursor.shift candidate token).map some
        else some cursor.shift
      shift.map fun s =>
        let taken := cursor.taken + token.text.length
        if candidate.text.length ≤ taken then
          { cursor with rest := rest, taken := 0, shift := s }
        else { cursor with taken := taken, shift := s }

end Cursor

/-- The source token can be the first that the pattern token is compared with. -/
def canStart (target candidate : Token) : Bool :=
  if target.kind = .stringFragment then
    candidate.kind == .stringLiteral && target.text.isPrefixOf candidate.text
  else candidate.text == target.text

/-- The source token is the brace that closes the scope at the given depth. -/
def closesScope (depth : Int) (candidate : Token) : Bool :=
  candidate.kind != .stringLiteral && candidate.text == ['\x7d'] && candidate.depth == depth

/-- The depths of the two tokens agree under the shift, as far as it is known. -/
def depthFits (shift : Option Int) (target candidate : Token) : Bool :=
  shift.all fun s => candidate.depth == target.depth + s

/-- The source token ends the scope that the wildcard stands in, as far as the shift
is known. -/
def endsScope (shift : Option Int) (wildcard candidate : Token) : Bool :=
  shift.any fun s => closesScope (wildcard.depth + s) candidate

/-- The places where a wildcard may end so that `target` can come next, the nearest
first: up to the brace that closes the wildcard's scope, and on that brace. -/
def landings (shift : Option Int) (wildcard target : Token) : List Token → List (List Token)
  | [] => []
  | candidate :: rest =>
    let here := if canStart target candidate && depthFits shift target candidate then
        [candidate :: rest] else []
    if endsScope shift wildcard candidate then here
    else here ++ landings shift wildcard target rest

end Graft.Search
