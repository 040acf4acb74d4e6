/-
Running the command line on a file tree.

A request reads the source file and the patch document, applies the document, and
writes the patched text; if asked for, it then shows the insertion in an editor.
Anything that fails before the output is opened leaves all files as they were;
directories on the way to the output may have been made.  A failure to write all of the
output leaves a part of it, and the file that was there is lost.

* `readText`, `saveText` — files as texts, with their faults;
* `execute` — carries out a request;
* `run` — the report of a whole command line.
-/
import Graft.CommandLine.Request
import Graft.CommandLine.Usage
import Graft.Editor
import Graft.Patch

namespace Graft.CommandLine

/-- How the program ends: its main part returns, it exits on the way, or a fault that
it does not report stops it. -/
inductive Exit where
  | returned (code : Nat)
  | exited (code : Nat)
  | failed (fault : Fault)
  deriving Repr, DecidableEq

/-- All that a run leaves behind. -/
structure Report where
  exit : Exit
  output : Text := []
  errors : Text := []
  tree : FileTree
  commands : List Editor.Command := []
  efforts : List Search.Effort := []
  deriving Repr, DecidableEq

/-- The fault of a path that was given without a value. -/
def noPath : Fault := .unfit .path noValue

/-- The fault of a file operation on a path that was given as `given`. -/
def fileFault (given : Text) (failure : FileTree.Failure) : Fault :=
  match failure with
  | .path .nullByte _ => .nullByte
  | .path error path => .fileFailed given (error.message path)
  | .writing error => .fileFailed given error.message

/-- The text of a file; every line end becomes a newline. -/
def readText (tree : FileTree) (path : Text) : Except Fault Text :=
  match tree.read (.ofText path) with
  | .error error => .error (fileFault path (.path error (.ofText path)))
  | .ok bytes =>
    match Utf8.decode bytes with
    | .error fault => .error (.fileFailed path fault.message)
    | .ok t => .ok (Text.unifyLineEnds t)

/-- Writes a text to a file, and gives the tree and what went wrong. -/
def saveText (tree : FileTree) (path t : Text) : FileTree × Option Fault :=
  match tree.save (.ofText path) (Utf8.encode t) with
  | (saved, none) => (saved, none)
  | (saved, some failure) => (saved, some (fileFault path failure))

/-- The text of the file at the path that was given. -/
def readGiven (tree : FileTree) : Option Text → Except Fault Text
  | none => .error noPath
  | some path => readText tree path

/-- Applies the patch document of a request to its source file. -/
def patch (surroundings : Surroundings) (tree : FileTree) (request : Request) :
    Outcome Patched :=
  (Outcome.of (readGiven tree request.source)).andThen fun source =>
    (Outcome.of (readGiven tree request.document)).andThen fun document =>
      Patch.applyDocument surroundings request.settings none source document request.document

/-- Writes a text to the file at the path that was given, and gives the tree and what
went wrong. -/
def saveGiven (tree : FileTree) (path : Option Text) (t : Text) : FileTree × Option Fault :=
  match path with
  | none => (tree, some noPath)
  | some path => saveText tree path t

/-- Carries out a request: the tree it leaves, and what became of the patch. -/
def execute (surroundings : Surroundings) (tree : FileTree) (request : Request) :
    FileTree × Outcome Patched :=
  let outcome := patch surroundings tree request
  match outcome.result with
  | .error _ => (tree, outcome)
  | .ok patched =>
    match saveGiven tree request.output patched.text with
    | (saved, none) => (saved, outcome)
    | (saved, some fault) => (saved, { outcome with result := .error fault })

/-- The records that are shown, each on a line. -/
def recordLines (verbose : Bool) (records : List Log.Record) : Text :=
  (records.filter fun record => verbose || record.level == .warning).flatMap
    (·.line ++ ['\n'])

/-- A fault that the program reports; others stop it. -/
def isReported (fault : Fault) : Bool := fault.concernsPatch || fault == .parserMissing

/-- Shows the insertion of a request that asks for it. -/
def showPatched (resolve : Editor.Resolver) (request : Request)
    (endings : List Editor.Ending) (inserted : Location) : Except Fault Editor.Run :=
  match request.openEditor, request.output with
  | true, some path =>
    Editor.openInsertion resolve path (inserted.withFile (some path)) .other endings
  | _, _ => .ok ⟨true, [], []⟩

/-- The report of a patch that was applied and written.  It says so before the insertion
is shown. -/
def reportPatched (resolve : Editor.Resolver) (tree : FileTree) (request : Request)
    (endings : List Editor.Ending) (outcome : Outcome Patched) (patched : Patched) : Report :=
  let report : Report :=
    { exit := .returned 0
      output := "Patched at byte offset ".toList ++ Text.ofInt patched.found.insertion ++ ['\n']
      errors := recordLines request.verbose outcome.records
      tree
      efforts := outcome.efforts }
  match showPatched resolve request endings patched.inserted with
  | .error fault => { report with exit := .failed fault }
  | .ok shown =>
    { report with
      errors := report.errors ++ recordLines request.verbose shown.records
      commands := shown.commands }

/-- The report of a patch that failed. -/
def reportFault (tree : FileTree) (request : Request) (outcome : Outcome Patched)
    (fault : Fault) : Report :=
  let errors := recordLines request.verbose outcome.records
  if isReported fault then
    { exit := .returned 1
      errors := errors ++ "error: ".toList ++ fault.message ++ ['\n']
      tree
      efforts := outcome.efforts }
  else { exit := .failed fault, errors, tree, efforts := outcome.efforts }

/-- The report of a request; `resolve` says where the output is, and `endings` are those
of the editor's commands. -/
def reportRequest (surroundings : Surroundings) (resolve : Editor.Resolver) (tree : FileTree)
    (request : Request) (endings : List Editor.Ending) : Report :=
  let (left, outcome) := execute surroundings tree request
  match outcome.result with
  | .ok patched => reportPatched resolve left request endings outcome patched
  | .error fault => reportFault left request outcome fault

/-- The report of a command line that makes no request. -/
def reportStop (tree : FileTree) (choices : List Text) (stop : Stop) : Report :=
  let unusable : Report := { exit := .failed .noUsage, tree }
  match stop with
  | .version => { exit := .exited 0, output := versionText ++ ['\n'], tree }
  | .help =>
    match help? choices with
    | none => unusable
    | some help => { exit := .exited 0, output := help, tree }
  | .misuse message =>
    match usage? choices with
    | none => unusable
    | some usage =>
      { exit := .exited 2
        errors := usage ++ programName ++ ": error: ".toList ++ message ++ ['\n']
        tree }

/-- The report of a command line. -/
def run (surroundings : Surroundings) (resolve : Editor.Resolver) (tree : FileTree)
    (arguments : List Text) (endings : List Editor.Ending) : Report :=
  let choices := surroundings.registry.names
  match Request.ofWords choices arguments with
  | .error stop => reportStop tree choices stop
  | .ok request => reportRequest surroundings resolve tree request endings

end Graft.CommandLine
