/-
Showing an insertion in an editor.

Two commands show where a patch was inserted: one opens the file with the cursor
behind the insertion, one hands a URI to the system that makes the editor select
it.  They are run one after the other until one fails; a failure is logged.  Both name
the file by the path that its own path is resolved to, and resolving it may fail.

* `Resolver`, `bySpelling` — where paths lead, in general and without links;
* `gotoCommand`, `highlightUri`, `uriCommand` — the commands;
* `openInsertion` — runs them, given how each of them ends.
-/
import Graft.Fault
import Graft.Files.Tree
import Graft.Location
import Graft.Log
import Graft.Text.Percent

namespace Graft.Editor

/-- Says where a path leads, as a path from the root that passes no links, or why that
cannot be said. -/
abbrev Resolver := Text → Except Fault Text

/-- Resolves a path by its spelling, as long as it passes no links.  There is no
`directory` to start from if the working directory has been removed. -/
def bySpelling (directory : Option Text) : Resolver := fun path =>
  if path.contains '\x00' then .error .nullByte
  else match Path.rootOf path, directory with
    | [], none => .error .noWorkingDirectory
    | _, directory => .ok (Path.absolute (directory.getD []) path)

/-- A program and its arguments. -/
abbrev Command := List Text

/-- The end of a location: its own, or its start where the end is unknown or zero. -/
def endOr (stop : Option Int) (start : Int) : Int :=
  match stop with
  | none => start
  | some n => if n = 0 then start else n

/-- Opens a file with the cursor behind a location in it. -/
def gotoCommand (resolve : Resolver) (path : Text) (inserted : Location) :
    Except Fault Command := do
  let resolved ← resolve path
  return ["code".toList, "--goto".toList,
    resolved ++ ':' :: Text.ofInt (endOr inserted.endLine inserted.line)
      ++ ':' :: Text.ofInt (endOr inserted.endColumn inserted.column)]

/-- The URI that makes the editor select a location, with lines and columns counted
from zero. -/
def highlightUri (resolve : Resolver) (path : Text) (inserted : Location) :
    Except Fault Text := do
  let resolved ← resolve path
  return "vscode://DK.vscode-smartpatch-highlighter?path=".toList
    ++ Percent.encode resolved
    ++ "&startLine=".toList ++ Text.ofInt (inserted.line - 1)
    ++ "&startCol=".toList ++ Text.ofInt (inserted.column - 1)
    ++ "&endLine=".toList ++ Text.ofInt (endOr inserted.endLine inserted.line - 1)
    ++ "&endCol=".toList ++ Text.ofInt (endOr inserted.endColumn inserted.column - 1)

/-- The platforms that hand a URI to its program in ways of their own. -/
inductive Platform where
  | windows
  | mac
  | other
  deriving Repr, DecidableEq

/-- The platform of a name. -/
def Platform.ofName (name : Text) : Platform :=
  if name = "win32".toList then windows
  else if name = "darwin".toList then mac
  else other

/-- Hands a URI to the program that is registered for it. -/
def uriCommand (platform : Platform) (uri : Text) : Command :=
  match platform with
  | .windows => ["rundll32".toList, "url.dll,FileProtocolHandler".toList, uri]
  | .mac => ["open".toList, uri]
  | .other => ["xdg-open".toList, uri]

/-- How a command ends: well, because its program is not there, or with a status that
says so; a negative status is the signal that ended it. -/
inductive Ending where
  | ok
  | missing
  | status (code : Int)
  deriving Repr, DecidableEq

/-- The signals by number. -/
def signals : List (Nat × String) :=
  [(1, "SIGHUP"), (2, "SIGINT"), (3, "SIGQUIT"), (4, "SIGILL"), (5, "SIGTRAP"), (6, "SIGABRT"),
    (7, "SIGBUS"), (8, "SIGFPE"), (9, "SIGKILL"), (10, "SIGUSR1"), (11, "SIGSEGV"),
    (12, "SIGUSR2"), (13, "SIGPIPE"), (14, "SIGALRM"), (15, "SIGTERM"), (16, "SIGSTKFLT"),
    (17, "SIGCHLD"), (18, "SIGCONT"), (19, "SIGSTOP"), (20, "SIGTSTP"), (21, "SIGTTIN"),
    (22, "SIGTTOU"), (23, "SIGURG"), (24, "SIGXCPU"), (25, "SIGXFSZ"), (26, "SIGVTALRM"),
    (27, "SIGPROF"), (28, "SIGWINCH"), (29, "SIGIO"), (30, "SIGPWR"), (31, "SIGSYS"),
    (34, "SIGRTMIN"), (64, "SIGRTMAX")]

/-- What a status says. -/
def statusMessage : Int → Text
  | .ofNat n => "returned non-zero exit status ".toList ++ Text.ofNat n ++ ['.']
  | .negSucc n =>
    match signals.find? (·.1 == n + 1) with
    | some (_, name) =>
      "died with <Signals.".toList ++ name.toList ++ ": ".toList ++ Text.ofNat (n + 1)
        ++ ">.".toList
    | none => "died with unknown signal ".toList ++ Text.ofNat (n + 1) ++ ['.']

/-- Why a command failed, if it did. -/
def failure? (command : Command) : Ending → Option Text
  | .ok => none
  | .missing => some (FileError.noEntry.messageFor (command.headD []))
  | .status code =>
    some ("Command '".toList ++ Text.quotedList command ++ "' ".toList ++ statusMessage code)

/-- What became of a number of commands. -/
structure Run where
  ok : Bool
  /-- The commands that were started. -/
  commands : List Command
  records : List Log.Record
  deriving Repr, DecidableEq

/-- The record of a command that failed. -/
def failureRecord (command : Command) (reason : Text) : Log.Record :=
  .warning "editor" <| "Editor command ".toList ++ Text.quoted (command.headD [])
    ++ " failed: ".toList ++ reason

/-- Runs commands until one fails; the endings are those of the commands in order, and
commands without one end well. -/
def runAll : List Command → List Ending → Run
  | [], _ => ⟨true, [], []⟩
  | command :: commands, endings =>
    match failure? command (endings.headD .ok) with
    | some reason => ⟨false, [command], [failureRecord command reason]⟩
    | none =>
      let rest := runAll commands endings.tail
      { rest with commands := command :: rest.commands }

/-- Shows an insertion in a file. -/
def openInsertion (resolve : Resolver) (path : Text) (inserted : Location)
    (platform : Platform) (endings : List Ending) : Except Fault Run := do
  let goto ← gotoCommand resolve path inserted
  let uri ← highlightUri resolve path inserted
  return runAll [goto, uriCommand platform uri] endings

end Graft.Editor
