/-
The program.

`main` takes a picture of the places that the request's paths lead over, runs the
command line on that picture, and brings the file system to the state of the
picture that comes back.  It starts no other programs, so the editor's commands end
as if their programs were missing, and it has no parser for source text.  The path that
it names to the editor is the one that the spelling of the output's path stands for.
-/
import Graft.CommandLine.Run

namespace Graft.Program

/-- The places on the way from `start` along the parts of a path, the last one first. -/
def placesAlong (start : List Text) (parts : List Text) : List (List Text) :=
  parts.foldl (fun places part => Path.advance (places.headD []) part :: places) [start]

/-- The places that a path leads over. -/
def placesOf (working : List Text) (t : Text) : List (List Text) :=
  let path := Path.ofText t
  placesAlong (if path.root.isEmpty then working else []) path.parts

/-- The places that matter for a command line. -/
def places (working : List Text) (arguments : List Text) : List (List Text) :=
  let down := (List.range (working.length + 1)).map working.take
  match CommandLine.Request.ofWords Registry.initial.names arguments with
  | .error _ => down
  | .ok request =>
    down ++ ([request.source, request.document, request.output].filterMap id).flatMap
      (placesOf working)

/-- The name of a place in the file system. -/
def fileName (place : List Text) : String := String.ofList ('/' :: Text.join ['/'] place)

/-- What the file system holds at a place. -/
def look (place : List Text) : IO (Option Node) := do
  let path := (← IO.currentDir) / fileName place
  if ← path.isDir then return some .directory
  else if ← path.pathExists then return some (.file (← IO.FS.readBinFile path).toList)
  else return none

/-- The picture of the given places. -/
def picture (working : List Text) : List (List Text) → IO FileTree
  | [] => return { working }
  | place :: others => do
    let tree ← picture working others
    match ← look place with
    | none => return tree
    | some node => return tree.put place node

/-- Brings one place to a new state. -/
def settle (place : List Text) : Node → IO Unit
  | .directory => IO.FS.createDir (fileName place)
  | .file bytes => IO.FS.writeBinFile (fileName place) ⟨bytes.toArray⟩

/-- Brings the file system from one picture to the next. -/
def update (before after : FileTree) : IO Unit :=
  for (place, node) in after.entries do
    if before.node? place ≠ some node then settle place node

end Graft.Program

open Graft in
def main (words : List String) : IO UInt32 := do
  let arguments := words.map String.toList
  let directory := (← IO.currentDir).toString.toList
  let working := Path.partsOf directory
  let before ← Program.picture working (Program.places working arguments)
  let report := CommandLine.run {} (Editor.bySpelling (some directory)) before arguments
    [.missing, .missing]
  Program.update before report.tree
  (← IO.getStdout).putStr (String.ofList report.output)
  (← IO.getStderr).putStr (String.ofList report.errors)
  match report.exit with
  | .returned code | .exited code => return code.toUInt32
  | .failed fault =>
    (← IO.getStderr).putStrLn (String.ofList fault.message)
    return 1
