/-
Patch documents.

A patch document is a markdown text with a section for the match snippet and a
section for the patch.  The first fenced block after a heading with the word
`match` and before the next heading is the snippet, and likewise with the word
`patch` for the patch.  One heading may name both.

* `Outline` — the sections found so far, and those that the next block is for;
* `fragments` — the two fragments of a document, or the sections it lacks.
-/
import Graft.Document.Block
import Graft.Text.WordChar
import Graft.Fault

namespace Graft

/-- The two fragments of a patch document. -/
structure Fragments where
  snippet : Text
  patch : Text
  deriving Repr, DecidableEq

namespace Document

/-- The sections of a patch document. -/
inductive Section where
  | snippet
  | patch
  deriving Repr, DecidableEq

/-- The word that names a section in a heading. -/
def Section.word : Section → Text
  | snippet => "match".toList
  | patch => "patch".toList

/-- The sections that have been found, and the sections that the next block is for. -/
structure Outline where
  snippet : Option Text := none
  patch : Option Text := none
  wanted : List Section := []
  deriving Repr, DecidableEq

namespace Outline

/-- The fragment of a section, if it has been found. -/
def fragment? (outline : Outline) : Section → Option Text
  | .snippet => outline.snippet
  | .patch => outline.patch

/-- Sets the fragment of a section. -/
def put (body : Text) (outline : Outline) : Section → Outline
  | .snippet => { outline with snippet := some body }
  | .patch => { outline with patch := some body }

/-- A heading: the next block is for the sections that it names and that have not
been found. -/
def heading (outline : Outline) (title : Text) : Outline :=
  { outline with
    wanted := [Section.snippet, .patch].filter fun s =>
      (outline.fragment? s).isNone && Text.hasWord s.word title }

/-- A block: it is the fragment of the sections it is for, and later blocks are not. -/
def block (outline : Outline) (body : Text) : Outline :=
  { outline.wanted.foldl (put body) outline with wanted := [] }

/-- The sections that have not been found. -/
def missing (outline : Outline) : List Section :=
  [Section.snippet, .patch].filter fun s => (outline.fragment? s).isNone

end Outline

theorem afterBlock_length (fence : Fence) (lines : List Text) :
    (afterBlock fence lines).length ≤ lines.length := by
  have h := (lines.dropWhile_suffix (!fence.closes ·)).length_le
  simp only [afterBlock, List.length_drop]
  omega

/-- Reads the lines of a document one after the other. -/
def outline (state : Outline) : List Text → Outline
  | [] => state
  | line :: lines =>
    match heading? line with
    | some title => outline (state.heading title) lines
    | none =>
      match Fence.ofLine? line with
      | some fence =>
        have := afterBlock_length fence lines
        outline (state.block (fragment (blockLines fence lines))) (afterBlock fence lines)
      | none => outline state lines
termination_by lines => lines.length
decreasing_by all_goals simp only [List.length_cons]; omega

/-- The two fragments of a document; `file` is where the document comes from. -/
def fragments (document : Text) (file : Option Text) : Except Fault Fragments :=
  let found := outline {} (Text.physicalLines document)
  match found.snippet, found.patch with
  | some snippet, some patch => .ok ⟨snippet, patch⟩
  | _, _ => .error (.sectionsMissing (found.missing.map Section.word) file)

end Document

end Graft
