/-
Tokenizers.

Source text is read by a tokenizer that is looked up by name.  Three ways of
reading are known: by the rules that patterns are read by, at the leaves of a
parser's syntax tree, and word by word between single spaces.  A registry says
which names stand for which way; a name can be registered again.

* `Registry.find`, `Registry.choose` — the tokenizer of a name, or of a value;
* `Tokenizer.tokenize` — the tokens of a source text, and what there is to log.
-/
import Graft.Log
import Graft.SyntaxTree

namespace Graft

/-- A parser makes a syntax tree of a source text. -/
abbrev Parser := Text → SyntaxTree

/-- The ways of reading source text. -/
inductive Scheme where
  | builtin
  | leaves
  | words
  deriving Repr, DecidableEq

/-- A way of reading source text with all that it needs. -/
inductive Tokenizer where
  | builtin
  | leaves (parser : Parser)
  | words

namespace Tokenizer

/-- The name that a tokenizer gives itself. -/
def name : Tokenizer → Text
  | builtin => "builtin".toList
  | leaves _ => "tree-sitter".toList
  | words => "words".toList

/-- The words of a text between single spaces, each with its offset. -/
def wordTokens (offset : Nat) : List Text → List Token
  | [] => []
  | word :: others =>
    ⟨.identifier, word, 0, some offset⟩ :: wordTokens (offset + word.length + 1) others

/-- The record of a tree with syntax errors. -/
def recoveryRecord : Log.Record :=
  .debug "providers.treesitter"
    "tree-sitter reported syntax errors; matching on recovered leaves".toList

/-- The tokens of a source text, and the records of reading it. -/
def tokenize (t : Text) : Tokenizer → Except Fault (List Token) × List Log.Record
  | builtin => (.ok (Reading.ofText .source t).levelled, [])
  | words => (.ok (wordTokens 0 (Text.splitAtChar ' ' t)), [])
  | leaves parser =>
    let tree := parser t
    match tree.tokens t with
    | .ok tokens => (.ok tokens, if tree.hasError then [recoveryRecord] else [])
    | .error fault => (.error fault, [])

end Tokenizer

/-- The names of tokenizers and what they stand for. -/
structure Registry where
  entries : List (Text × Scheme)
  deriving Repr, DecidableEq

namespace Registry

/-- The registry that every session starts with. -/
def initial : Registry :=
  ⟨[("builtin".toList, .builtin), ("tree-sitter".toList, .leaves)]⟩

/-- The registered names in order. -/
def names (registry : Registry) : List Text :=
  (registry.entries.map (·.1)).mergeSort Text.precedes

/-- Registers a name; what it stood for before is forgotten. -/
def register (registry : Registry) (name : Text) (scheme : Scheme) : Registry :=
  ⟨registry.entries.filter (·.1 != name) ++ [(name, scheme)]⟩

/-- The tokenizer of a name; reading at leaves needs a parser. -/
def find (registry : Registry) (parser : Option Parser) (name : Text) :
    Except Fault Tokenizer :=
  match registry.entries.find? (·.1 == name) with
  | none => .error (.unknownTokenizer (.text name) registry.names)
  | some (_, .builtin) => .ok .builtin
  | some (_, .words) => .ok .words
  | some (_, .leaves) =>
    match parser with
    | none => .error .parserMissing
    | some parser => .ok (.leaves parser)

/-- The tokenizer that a value names.  A compound value cannot be looked up, and other
values that are no texts are the name of none. -/
def choose (registry : Registry) (parser : Option Parser) : Value → Except Fault Tokenizer
  | .text name => registry.find parser name
  | value =>
    if value.isCompound then .error (.unfit .name value)
    else .error (.unknownTokenizer value registry.names)

end Registry

end Graft
