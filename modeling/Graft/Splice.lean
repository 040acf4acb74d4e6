/-
Splicing a patch into a text.

A patch is inserted at an offset, and the text up to the end of the deletion goes.
As a block it stands on lines of its own, each indented like the line of the
insertion; inline it continues that line.  Blanks between the start of that line
and the offset are a placeholder and go.

* `Style.ofSnippet` — the style that a match snippet asks for by its layout;
* `splice` — the patched text, and where the patch stands in it.
-/
import Graft.Location
import Graft.Search.Basic

namespace Graft

/-- How a patch is laid out. -/
inductive Style where
  | inline
  | block
  deriving Repr, DecidableEq

/-- The first line with an insertion marker decides: a marker that stands alone asks
for a block. -/
def Style.ofSnippet (snippet : Text) : Style :=
  match (Text.lines snippet).find? (Text.hasInfix Kind.inserter.marker) with
  | some line => if Text.trim line == Kind.inserter.marker then .block else .inline
  | none => .inline

/-- A patched text, and where the patch stands in it. -/
structure Spliced where
  text : Text
  style : Style
  inserted : Location
  deriving Repr, DecidableEq

namespace Splice

/-- What is kept of the text before the insertion: a last line of blanks goes. -/
def kept (before : Text) : Text :=
  if Text.isAllBlank (Text.lastLine before) then Text.withoutLastLine before else before

/-- The indentation of the line of the insertion. -/
def indent (before : Text) : Text := (Text.lastLine before).takeWhile Text.isBlank

/-- The text in front of an inline patch: a newline at its end goes. -/
def inlineHead (before : Text) : Text :=
  if Text.endsWithNewline (kept before) then (kept before).dropLast else kept before

/-- The text in front of a block: it ends with a newline, unless the block starts the
text. -/
def blockHead (offset : Int) (before : Text) : Text :=
  if offset ≠ 0 ∧ ¬ Text.endsWithNewline (kept before) then kept before ++ ['\n']
  else kept before

/-- The lines of a patch, each behind the indentation. -/
def indented (indent patch : Text) : Text :=
  Text.join ['\n'] ((Text.lines patch).map (indent ++ ·))

/-- The text in front of the patch. -/
def head (style : Style) (offset : Int) (before : Text) : Text :=
  match style with
  | .inline => inlineHead before
  | .block => blockHead offset before

/-- The patch as it stands in the text. -/
def body (style : Style) (before patch : Text) : Text :=
  match style with
  | .inline => Text.trim patch
  | .block => indented (indent before) patch

/-- The offset where the text goes on behind the patch. -/
def resume (found : Match) : Int :=
  if found.deletes then found.deletion.getD found.insertion else found.insertion

end Splice

/-- Splices a patch into a text. -/
def splice (source : Text) (found : Match) (patch : Text) (style : Style) : Spliced :=
  let before := Text.upTo source found.insertion
  let head := Splice.head style found.insertion before
  let body := Splice.body style before patch
  let text := head ++ body ++ Text.startingAt source (Splice.resume found)
  ⟨text, style, .ofOffsets text head.length (head.length + body.length) none⟩

end Graft
