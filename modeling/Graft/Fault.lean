/-
What can go wrong.

A fault is a cause; `Fault.message` words it, and `Fault.families` says what it is an
error of.  Most causes concern the patch that was asked for: the document, the pattern,
the search, the files.  The others concern the tokenizer or what was given: the tokenizer
is not known, it needs a parser that is not there, the parser's tree points outside the
text, a path leads nowhere, a token has no offset, or a value does not serve for what it
is used.
-/
import Graft.Token.Basic
import Graft.Value

namespace Graft

/-- What a value is used for. -/
inductive Use where
  /-- As the path of a file. -/
  | path
  /-- As a name to look up. -/
  | name
  /-- As a ceiling to compare a count with. -/
  | ceiling
  deriving Repr, DecidableEq

/-- How it shows that a value of some kind does not serve. -/
def Use.message (kind : String) : Use → String
  | path => "expected str, bytes or os.PathLike object, not " ++ kind
  | name => "unhashable type: '" ++ kind ++ "'"
  | ceiling => "'>' not supported between instances of 'int' and '" ++ kind ++ "'"

/-- The causes of failure. -/
inductive Fault where
  /-- A failure with details of its own. -/
  | general (details : List Text)
  /-- The pattern does not match. -/
  | noMatch (wording : Text)
  /-- A token of the pattern occurs nowhere in the source. -/
  | tokenAbsent (token : Token)
  /-- The pattern matches and says nothing about where to insert. -/
  | noInserter
  /-- A search was stopped at a ceiling. -/
  | limitExceeded (limit : Text) (bound : Value)
  /-- A document lacks sections. -/
  | sectionsMissing (sections : List Text) (file : Option Text)
  /-- A file cannot be read or written. -/
  | fileFailed (path reason : Text)
  /-- No tokenizer has this name. -/
  | unknownTokenizer (name : Value) (available : List Text)
  /-- The tokenizer needs a parser that is not installed. -/
  | parserMissing
  /-- A span reaches past the end of the text. -/
  | spanPastEnd
  /-- A byte offset lies outside the text. -/
  | byteOutside
  /-- A path holds a null character. -/
  | nullByte
  /-- The links on the way of a path go in a circle. -/
  | linkLoop (path : Text)
  /-- The working directory has been removed. -/
  | noWorkingDirectory
  /-- A token that is not from a source has no offset. -/
  | noOffset (token : Token)
  /-- The usage of the command line cannot be laid out. -/
  | noUsage
  /-- A value does not serve for what it is used. -/
  | unfit (use : Use) (value : Value)
  deriving Repr, DecidableEq

namespace Fault

/-- The search has been exhausted. -/
def exhausted : Fault := noMatch "pattern does not match the source".toList

/-- A count exceeds the ceiling that a value is. -/
def overCeiling (limit : Text) (ceiling : Value) : Fault :=
  if ceiling.isNumber then limitExceeded limit ceiling else unfit .ceiling ceiling

/-- The details of a general failure: one stands for itself, several are listed. -/
def detailMessage : List Text → Text
  | [] => []
  | [detail] => detail
  | details => '(' :: Text.join ", ".toList (details.map Text.quoted) ++ [')']

/-- The wording of a fault. -/
def message : Fault → Text
  | general details => detailMessage details
  | noMatch wording => wording
  | tokenAbsent token =>
    "pattern token ".toList ++ Text.quoted token.text ++ " (".toList ++ token.kind.label
      ++ ") does not occur in the source".toList
  | noInserter => "pattern matched but has no '>>>' insertion marker".toList
  | limitExceeded limit bound =>
    "pattern search exceeded ".toList ++ limit ++ ['='] ++ bound.display
  | sectionsMissing sections file =>
    let place := match file with
      | none | some [] => []
      | some file => file ++ ": ".toList
    place ++ "could not extract ".toList ++ Text.join " and ".toList (sections.map Text.quoted)
      ++ " block from document".toList
  | fileFailed path reason => path ++ ": ".toList ++ reason
  | unknownTokenizer name available =>
    "Unknown tokenizer: ".toList ++ name.quoted ++ ". Available: ".toList
      ++ Text.join ", ".toList available
  | parserMissing =>
    ("tree-sitter and tree-sitter-cpp are required. "
      ++ "Install with: pip install smartpatch[cpp]").toList
  | spanPastEnd => "string index out of range".toList
  | byteOutside => "list index out of range".toList
  | nullByte => "embedded null byte".toList
  | linkLoop path => "Symlink loop from ".toList ++ Text.quoted path
  | noWorkingDirectory => "[Errno 2] No such file or directory".toList
  | noOffset token => token.display ++ " has no source offset".toList
  | noUsage => []
  | unfit use value => (use.message value.kindName).toList

/-- The fault concerns the patch that was asked for, not the tokenizer or
what was given. -/
def concernsPatch : Fault → Bool
  | unknownTokenizer .. | parserMissing | spanPastEnd | byteOutside | nullByte | linkLoop _
  | noWorkingDirectory | noOffset _ | noUsage | unfit .. => false
  | _ => true

/-- The family of all faults that concern the patch. -/
def patchFamily : String := "SmartPatchError"

/-- The families of a fault, from the narrowest on. -/
def families : Fault → List String
  | general _ => [patchFamily]
  | noMatch _ => ["NoMatchFound", patchFamily]
  | tokenAbsent _ => ["TokenNotFound", "NoMatchFound", patchFamily]
  | noInserter => ["MissingInserter", patchFamily]
  | limitExceeded .. => ["SearchLimitExceeded", patchFamily]
  | sectionsMissing .. => ["ExtractionError", patchFamily]
  | fileFailed .. => ["PatchIOError", patchFamily]
  | unknownTokenizer .. => ["KeyError"]
  | parserMissing => ["ImportError"]
  | spanPastEnd | byteOutside => ["IndexError"]
  | nullByte | noOffset _ => ["ValueError"]
  | linkLoop _ => ["RuntimeError"]
  | noWorkingDirectory => ["FileNotFoundError"]
  | noUsage => ["AssertionError"]
  | unfit .. => ["TypeError"]

theorem concernsPatch_iff (fault : Fault) :
    fault.concernsPatch = true ↔ patchFamily ∈ fault.families := by
  cases fault <;> simp [concernsPatch, families, patchFamily]

end Fault

/-- The offset behind a token, which only a token from a source has. -/
def Token.stop (token : Token) : Except Fault Int :=
  match token.stop? with
  | some offset => .ok offset
  | none => .error (.noOffset token)

end Graft
