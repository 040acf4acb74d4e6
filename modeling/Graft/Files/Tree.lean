/-
File trees.

A file tree says which places below the root hold a directory and which a file.
Paths are walked part by part from the root or from the working directory: each
part is looked up in the directory reached so far.  The bytes of a part and of a
whole path are limited, and a path holds no null character.  There are no links and
no permissions, so nothing else keeps a path from being used.

A file is written in two steps.  It is opened, which empties it or makes a new one, and
then the bytes are written.  The second step may break off, on a full disk or at a limit
for files; how it ends is a part of the tree, and what was written by then stays.

* `walk` — the place that a path leads to;
* `read`, `write` — the bytes of a file;
* `openEmpty`, `fill` — the two steps of writing;
* `makeDirectory`, `makeParents` — one directory, or all that are missing on the way
  to it, the outermost first.
-/
import Graft.Files.Path
import Graft.Text.Numeral
import Graft.Text.Quoted
import Graft.Text.Utf8

namespace Graft

/-- The wording of an error with the number that the system has for it. -/
def numbered (number : Nat) (wording : String) : Text :=
  "[Errno ".toList ++ Text.ofNat number ++ "] ".toList ++ wording.toList

/-- Why a path cannot be used. -/
inductive FileError where
  | noEntry
  | exists
  | notDirectory
  | isDirectory
  | nameTooLong
  | nullByte
  deriving Repr, DecidableEq

namespace FileError

/-- The number of a file error that the system finds; null characters are found
before it is asked. -/
def number? : FileError → Option Nat
  | noEntry => some 2
  | «exists» => some 17
  | notDirectory => some 20
  | isDirectory => some 21
  | nameTooLong => some 36
  | nullByte => none

/-- The wording of a file error. -/
def wording : FileError → String
  | noEntry => "No such file or directory"
  | «exists» => "File exists"
  | notDirectory => "Not a directory"
  | isDirectory => "Is a directory"
  | nameTooLong => "File name too long"
  | nullByte => "embedded null byte"

/-- The message of a file error on something that is called `name`. -/
def messageFor (error : FileError) (name : Text) : Text :=
  match error.number? with
  | none => error.wording.toList
  | some number => numbered number error.wording ++ ": ".toList ++ Text.quoted name

/-- The message of a file error at a path. -/
def message (error : FileError) (path : Path) : Text := error.messageFor path.display

end FileError

/-- Why writing to an open file breaks off. -/
inductive WriteError where
  | inputOutput
  | tooLarge
  | noSpace
  | quotaExceeded
  deriving Repr, DecidableEq

/-- The message of a write error, which names no file. -/
def WriteError.message : WriteError → Text
  | inputOutput => numbered 5 "Input/output error"
  | tooLarge => numbered 27 "File too large"
  | noSpace => numbered 28 "No space left on device"
  | quotaExceeded => numbered 122 "Disk quota exceeded"

/-- How writing to an open file ends: with all bytes written, or with the first ones
only. -/
inductive Writing where
  | whole
  | broken (kept : Nat) (error : WriteError)
  deriving Repr, DecidableEq

/-- The bytes that are in the file when writing has ended. -/
def Writing.part (bytes : List UInt8) : Writing → List UInt8
  | whole => bytes
  | broken kept _ => bytes.take kept

/-- What a place holds. -/
inductive Node where
  | directory
  | file (bytes : List UInt8)
  deriving Repr, DecidableEq

/-- The places that hold something, each as the names that lead to it from the root,
the place of the working directory, and how writing to a file ends. -/
structure FileTree where
  entries : List (List Text × Node) := []
  working : List Text := []
  writing : Writing := .whole
  deriving Repr, DecidableEq

namespace FileTree

/-- What a place holds; the root is a directory. -/
def node? (tree : FileTree) (place : List Text) : Option Node :=
  if place.isEmpty then some .directory
  else (tree.entries.find? (·.1 == place)).map (·.2)

/-- Puts something at a place. -/
def put (tree : FileTree) (place : List Text) (node : Node) : FileTree :=
  { tree with entries := tree.entries.filter (·.1 != place) ++ [(place, node)] }

/-- Where a path leads: to a place that holds something, or to a free name in a
directory. -/
inductive Target where
  | entry (place : List Text) (node : Node)
  | free (place : List Text)
  deriving Repr, DecidableEq

/-- The most bytes of a name. -/
def maxNameBytes : Nat := 255

/-- The most bytes of a path. -/
def maxPathBytes : Nat := 4095

/-- The text takes more than `limit` bytes. -/
def isLonger (limit : Nat) (t : Text) : Bool := limit < (Utf8.encode t).length

/-- Walks from a place along the parts of a path. -/
def walk (tree : FileTree) (place : List Text) : List Text → Except FileError Target
  | [] =>
    match tree.node? place with
    | none => .error .noEntry
    | some node => .ok (.entry place node)
  | part :: parts =>
    match tree.node? place with
    | none => .error .noEntry
    | some (.file _) => .error .notDirectory
    | some .directory =>
      if part = Path.up then walk tree place.dropLast parts
      else if isLonger maxNameBytes part then .error .nameTooLong
      else if (tree.node? (place ++ [part])).isNone && parts.isEmpty then
        .ok (.free (place ++ [part]))
      else walk tree (place ++ [part]) parts

/-- Where a path leads. -/
def target (tree : FileTree) (path : Path) : Except FileError Target :=
  if path.display.contains '\x00' then .error .nullByte
  else if isLonger maxPathBytes path.display then .error .nameTooLong
  else tree.walk (if path.root.isEmpty then tree.working else []) path.parts

/-- The bytes of the file at a path. -/
def read (tree : FileTree) (path : Path) : Except FileError (List UInt8) :=
  match tree.target path with
  | .error error => .error error
  | .ok (.free _) => .error .noEntry
  | .ok (.entry _ .directory) => .error .isDirectory
  | .ok (.entry _ (.file bytes)) => .ok bytes

/-- The path leads to a directory. -/
def isDirectory (tree : FileTree) (path : Path) : Bool :=
  match tree.target path with
  | .ok (.entry _ .directory) => true
  | _ => false

/-- Makes a directory. -/
def makeDirectory (tree : FileTree) (path : Path) : Except FileError FileTree :=
  match tree.target path with
  | .error error => .error error
  | .ok (.entry _ _) => .error .exists
  | .ok (.free place) => .ok (tree.put place .directory)

/-- What failed: a path could not be used, or writing to an open file broke off. -/
inductive Failure where
  | path (error : FileError) (path : Path)
  | writing (error : WriteError)
  deriving Repr, DecidableEq

/-- Makes a directory unless there is one; gives the tree and what failed. -/
def ensureDirectory (tree : FileTree) (path : Path) : FileTree × Option Failure :=
  match tree.makeDirectory path with
  | .ok made => (made, none)
  | .error error =>
    if error ≠ .noEntry ∧ tree.isDirectory path then (tree, none)
    else (tree, some (.path error path))

/-- Makes a directory and those missing on the way to it; gives the tree, with all
directories made until something failed, and what failed. -/
def makeParents (tree : FileTree) (root : Text) (parts : List Text) :
    FileTree × Option Failure :=
  match tree.ensureDirectory ⟨root, parts⟩ with
  | (_, some (.path .noEntry path)) =>
    if _h : parts = [] then (tree, some (.path .noEntry path))
    else match tree.makeParents root parts.dropLast with
      | (made, some failure) => (made, some failure)
      | (made, none) => made.ensureDirectory ⟨root, parts⟩
  | done => done
termination_by parts.length
decreasing_by
  have := List.length_pos_iff.mpr _h
  simp only [List.length_dropLast]; omega

/-- Opens a file for writing, which may be new, in a directory that is there, and gives
its place.  The file is empty then. -/
def openEmpty (tree : FileTree) (path : Path) : Except FileError (FileTree × List Text) :=
  match tree.target path with
  | .error error => .error error
  | .ok (.entry _ .directory) => .error .isDirectory
  | .ok (.entry place (.file _)) | .ok (.free place) => .ok (tree.put place (.file []), place)

/-- Why writing broke off, if it did. -/
def failure? (tree : FileTree) : Option Failure :=
  match tree.writing with
  | .whole => none
  | .broken _ error => some (.writing error)

/-- Writes bytes to the file that was opened at a place; gives the tree and what failed. -/
def fill (tree : FileTree) (place : List Text) (bytes : List UInt8) :
    FileTree × Option Failure :=
  (tree.put place (.file (tree.writing.part bytes)), tree.failure?)

/-- Writes a file, which may be new, in a directory that is there; gives the tree and what
failed. -/
def write (tree : FileTree) (path : Path) (bytes : List UInt8) : FileTree × Option Failure :=
  match tree.openEmpty path with
  | .error error => (tree, some (.path error path))
  | .ok (opened, place) => opened.fill place bytes

/-- Writes a file and makes the directories missing on the way to it. -/
def save (tree : FileTree) (path : Path) (bytes : List UInt8) : FileTree × Option Failure :=
  match tree.makeParents path.root path.parent.parts with
  | (made, some failure) => (made, some failure)
  | (made, none) => made.write path bytes

end FileTree

end Graft
