/-
Log records.

A record has a level, the part of the program it comes from, and a message.  All
parts are named below one common root.
-/
import Graft.Text.Basic

namespace Graft.Log

/-- The level of a record. -/
inductive Level where
  | debug
  | warning
  deriving Repr, DecidableEq

/-- The name of a level. -/
def Level.name : Level → String
  | debug => "DEBUG"
  | warning => "WARNING"

/-- The name that all parts of the program are named below. -/
def rootName : Text := "smartpatch".toList

/-- A part's full name: below the root, unless the name is there already. -/
def qualify (name : Text) : Text :=
  if name == rootName || (rootName ++ ['.']).isPrefixOf name then name
  else rootName ++ '.' :: name

/-- A log record. -/
structure Record where
  level : Level
  origin : Text
  message : Text
  deriving Repr, DecidableEq

/-- A record for those who look for mistakes. -/
def Record.debug (origin : String) (message : Text) : Record :=
  ⟨.debug, qualify origin.toList, message⟩

/-- A record of something that failed and is not fatal. -/
def Record.warning (origin : String) (message : Text) : Record :=
  ⟨.warning, qualify origin.toList, message⟩

/-- The record on one line. -/
def Record.line (record : Record) : Text :=
  record.level.name.toList ++ ' ' :: record.origin ++ ": ".toList ++ record.message

end Graft.Log
