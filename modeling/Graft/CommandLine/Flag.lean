/-
The options of the command line.

An option has one or two spellings, and it takes a value or stands for itself.

* `Flag.ofSpelling?` — the option of a spelling.
-/
import Graft.Text.Quoted

namespace Graft.CommandLine

/-- The options. -/
inductive Flag where
  | help
  | source
  | document
  | output
  | tokenizer
  | maxSteps
  | relativeDepth
  | openEditor
  | verbose
  | version
  deriving Repr, DecidableEq

namespace Flag

/-- All options in the order in which they are explained. -/
def all : List Flag :=
  [help, source, document, output, tokenizer, maxSteps, relativeDepth, openEditor, verbose,
    version]

/-- The spellings of an option, the short one first. -/
def spellings : Flag → List Text
  | help => ["-h".toList, "--help".toList]
  | source => ["-s".toList, "--src".toList]
  | document => ["-m".toList, "--mp".toList]
  | output => ["-o".toList, "--out".toList]
  | tokenizer => ["--tokenizer".toList]
  | maxSteps => ["--max-steps".toList]
  | relativeDepth => ["--relative-depth".toList]
  | openEditor => ["--open".toList]
  | verbose => ["-v".toList, "--verbose".toList]
  | version => ["--version".toList]

/-- Every spelling with its option. -/
def table : List (Text × Flag) :=
  all.flatMap fun flag => flag.spellings.map fun spelling => (spelling, flag)

/-- The option of a spelling. -/
def ofSpelling? (t : Text) : Option Flag := (table.find? (·.1 == t)).map (·.2)

/-- The option takes a value. -/
def takesValue : Flag → Bool
  | source | document | output | tokenizer | maxSteps => true
  | _ => false

/-- The option has to be given. -/
def isRequired : Flag → Bool
  | source | document | output => true
  | _ => false

/-- The name of an option in messages. -/
def label (flag : Flag) : Text := Text.join ['/'] flag.spellings

end Flag

end Graft.CommandLine
