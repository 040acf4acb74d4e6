/-
Settings of a run.

The two ceilings bound a search: one its steps, one the wildcards of its pattern.
`relativeDepth` lets a pattern match at any nesting depth, and `tokenizer` names
the way source text is read.  `Settings.ofFields` takes them from named values.
-/
import Graft.Value

namespace Graft

/-- The settings of a run. -/
structure Settings where
  maxSteps : Value := .int 100000
  maxWildcards : Value := .int 256
  relativeDepth : Value := .bool false
  tokenizer : Value := .text "builtin".toList
  deriving Repr, DecidableEq

/-- The value with a name, if there is one. -/
def Fields.value? (name : Text) : Fields → Option Value
  | .nil => none
  | .cons other value others => if other = name then some value else others.value? name

/-- The settings among named values.  One that is missing keeps its default, and values with
other names are ignored. -/
def Settings.ofFields (fields : Fields) : Settings :=
  let value (name : String) (default : Value) := (fields.value? name.toList).getD default
  let standard : Settings := {}
  { maxSteps := value "max_steps" standard.maxSteps
    maxWildcards := value "max_wildcards" standard.maxWildcards
    relativeDepth := value "relative_depth" standard.relativeDepth
    tokenizer := value "tokenizer" standard.tokenizer }

end Graft
