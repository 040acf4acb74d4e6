/-
Patterns.

A pattern is the list of tokens of a match snippet.  Two shapes need no search: a
pattern `>>> ... <<<` stands for the whole text, and `... >>>` for its end.
-/
import Graft.Token.Reading

namespace Graft

/-- The tokens of a match snippet. -/
structure Pattern where
  tokens : List Token
  deriving Repr, DecidableEq

namespace Pattern

/-- The pattern of a match snippet. -/
def ofText (t : Text) : Pattern := ⟨(Reading.ofText .pattern t).levelled⟩

/-- The kinds of the tokens. -/
def kinds (pattern : Pattern) : List Kind := pattern.tokens.map (·.kind)

/-- The pattern replaces the whole text. -/
def isReplaceAll (pattern : Pattern) : Bool := pattern.kinds == [.inserter, .wildcard, .folder]

/-- The pattern adds to the end of the text. -/
def isAppend (pattern : Pattern) : Bool := pattern.kinds == [.wildcard, .inserter]

/-- The pattern marks a place of insertion. -/
def hasInserter (pattern : Pattern) : Bool := pattern.kinds.contains .inserter

/-- The number of wildcards. -/
def wildcardCount (pattern : Pattern) : Nat := pattern.kinds.count .wildcard

/-- The tokens that have to occur in the source as they are. -/
def literals (pattern : Pattern) : List Token :=
  pattern.tokens.filter fun token => !token.isMeta && token.kind != .stringFragment

end Pattern

end Graft
