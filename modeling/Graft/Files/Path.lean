/-
Paths.

A path is a root, which is empty for a path from the working directory, and its
parts.  Empty parts and `.` are dropped; `..` stays, since only a file tree knows
where it leads.  A path without root and parts is written `.`.

`absolute` makes a path absolute by its spelling alone: `..` takes back the part
before it, and at the root it does nothing.  Where a path passes a link it leads
elsewhere.
-/
import Graft.Text.Basic

namespace Graft

/-- A root and the parts below it. -/
structure Path where
  root : Text
  parts : List Text
  deriving Repr, DecidableEq

namespace Path

/-- The part that leads upwards. -/
def up : Text := ['.', '.']

/-- The parts of a path that lead somewhere. -/
def partsOf (t : Text) : List Text :=
  (Text.splitAtChar '/' t).filter fun part => !part.isEmpty && part != ['.']

/-- The root of a path: two slashes and no third are a root of their own. -/
def rootOf : Text → Text
  | '/' :: '/' :: '/' :: _ => ['/']
  | '/' :: '/' :: _ => ['/', '/']
  | '/' :: _ => ['/']
  | _ => []

/-- Reads a path. -/
def ofText (t : Text) : Path := ⟨rootOf t, partsOf t⟩

/-- Writes a path. -/
def display (path : Path) : Text :=
  match path.root ++ Text.join ['/'] path.parts with
  | [] => ['.']
  | t => t

/-- The path without its last part. -/
def parent (path : Path) : Path := { path with parts := path.parts.dropLast }

/-- Goes on by one part. -/
def advance (parts : List Text) (part : Text) : List Text :=
  if part = up then parts.dropLast else parts ++ [part]

/-- The path from the root that the spelling of a path stands for; `directory` is the
working directory. -/
def absolute (directory t : Text) : Text :=
  let parts := match rootOf t with
    | [] => partsOf directory ++ partsOf t
    | _ => partsOf t
  '/' :: Text.join ['/'] (parts.foldl advance [])

end Path

end Graft
