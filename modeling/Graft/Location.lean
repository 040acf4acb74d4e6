/-
Locations.

A location is a part of a text with the lines and columns of its two ends, both
counted from one, and possibly the file that the text is in.
-/
import Graft.Text.Lines
import Graft.Text.Numeral

namespace Graft

/-- A part of a text. -/
structure Location where
  line : Int
  column : Int
  offset : Int := 0
  endOffset : Int := 0
  endLine : Option Int := none
  endColumn : Option Int := none
  file : Option Text := none
  deriving Repr, DecidableEq

namespace Location

/-- The location of the characters from `start` to before `stop`. -/
def ofOffsets (t : Text) (start stop : Int) (file : Option Text) : Location :=
  let first := Text.placeAt t start
  let last := Text.placeAt t stop
  ⟨first.line, first.column, start, stop, some last.line, some last.column, file⟩

/-- The location in a file. -/
def withFile (location : Location) (file : Option Text) : Location :=
  { location with file := file }

/-- The location as a text: line and column, behind the file if there is one. -/
def display (location : Location) : Text :=
  let place := Text.ofInt location.line ++ ':' :: Text.ofInt location.column
  match location.file with
  | none | some [] => place
  | some file => file ++ ':' :: place

end Location

end Graft
