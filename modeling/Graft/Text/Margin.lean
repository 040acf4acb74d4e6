/-
The margin of a text.

The margin is the longest run of spaces and tabs that every line with some other
character starts with.  `withoutMargin` removes it, and empties the lines that
hold spaces and tabs only.  Lines end at newlines, so a carriage return counts as
a character that stops the indentation.
-/
import Graft.Text.Basic

namespace Graft.Text

/-- A character that lines are indented with. -/
def isIndentChar (c : Char) : Bool := c == ' ' || c == '\t'

/-- The indentation of a line. -/
def indentation (line : Text) : Text := line.takeWhile isIndentChar

/-- A line of indentation only becomes empty. -/
def emptyIfBlank (line : Text) : Text := if line.all isIndentChar then [] else line

/-- The longest indentation shared by the lines that are not empty. -/
def margin (ls : List Text) : Text :=
  match (ls.filter (!·.isEmpty)).map indentation with
  | [] => []
  | first :: rest => rest.foldl commonStart first

/-- The text without its margin. -/
def withoutMargin (t : Text) : Text :=
  let ls := (splitAtChar '\n' t).map emptyIfBlank
  let width := (margin ls).length
  join ['\n'] (ls.map (·.drop width))

end Graft.Text
