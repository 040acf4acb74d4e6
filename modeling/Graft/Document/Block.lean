/-
Headings and fenced blocks of markdown lines.

A line indented by four columns or more is neither.  A heading starts with one to
six `#` and a blank or the end of the line; trailing `#` do not belong to its
title.  A fenced block starts with a line of at least three backticks or tildes,
with no backtick behind backticks, and ends with a line of at least as many of them
and nothing else, or with the document.  Its lines lose as many leading spaces as
the fence is indented by.

* `heading?`, `Fence.ofLine?` — what a line starts;
* `Fence.closes` — a line ends the block;
* `fragment` — the lines of a block as a text: blank lines in front and the common
  margin go.
-/
import Graft.Text.Lines
import Graft.Text.Margin

namespace Graft.Document

/-- The width of a tab stop, and the indentation that makes a line plain text. -/
def tabWidth : Nat := 4

/-- The column behind the indentation of a line, and what stands there. -/
def splitIndent (column : Nat) : Text → Nat × Text
  | ' ' :: cs => splitIndent (column + 1) cs
  | '\t' :: cs => splitIndent (column + (tabWidth - column % tabWidth)) cs
  | cs => (column, cs)

/-- The title of a heading, if the content of a line is one. -/
def title? (content : Text) : Option Text :=
  let level := (content.takeWhile (· == '#')).length
  let rest := content.dropWhile (· == '#')
  if level = 0 ∨ 6 < level then none
  else if rest.head?.any fun c => !([' ', '\t', '\r', '\n'].contains c) then none
  else some (Text.trim (Text.trimRightChar '#' (Text.trim rest)))

/-- The title of a heading, if the line is one. -/
def heading? (line : Text) : Option Text :=
  let (column, content) := splitIndent 0 line
  if tabWidth ≤ column then none else title? content

/-- The line that a fenced block starts with. -/
structure Fence where
  mark : Char
  count : Nat
  indent : Nat
  deriving Repr, DecidableEq

/-- The backtick. -/
def backtick : Char := '\x60'

namespace Fence

/-- The fence that the line is, if it starts a block. -/
def ofLine? (line : Text) : Option Fence :=
  let (column, content) := splitIndent 0 line
  match content with
  | [] => none
  | mark :: _ =>
    let count := (content.takeWhile (· == mark)).length
    let info := content.dropWhile (· == mark)
    if tabWidth ≤ column then none
    else if mark ≠ backtick ∧ mark ≠ '~' then none
    else if count < 3 then none
    else if mark = backtick ∧ info.contains backtick then none
    else some ⟨mark, count, column⟩

/-- The line ends the block of the fence. -/
def closes (fence : Fence) (line : Text) : Bool :=
  let (column, content) := splitIndent 0 line
  column < tabWidth && fence.count ≤ (content.takeWhile (· == fence.mark)).length
    && Text.isAllBlank (content.dropWhile (· == fence.mark))

end Fence

/-- Removes at most `n` leading spaces. -/
def dropSpaces : Nat → Text → Text
  | n + 1, ' ' :: cs => dropSpaces n cs
  | _, cs => cs

/-- The lines of a block as a text. -/
def fragment (lines : List Text) : Text :=
  Text.withoutMargin (lines.dropWhile Text.isAllBlank).flatten

/-- The lines of the block behind a fence, without the fence's indentation. -/
def blockLines (fence : Fence) (lines : List Text) : List Text :=
  (lines.takeWhile (!fence.closes ·)).map (dropSpaces fence.indent)

/-- The lines behind the block. -/
def afterBlock (fence : Fence) (lines : List Text) : List Text :=
  (lines.dropWhile (!fence.closes ·)).drop 1

end Graft.Document
