/-
Tokens.

A token is a piece of text with its kind, the nesting depth of the braces around
it and, in source text, the offset where it starts.  Four kinds are meta: the
three markers of a pattern and comments; they match no source token.

* `Kind.marker` — the spelling of the three markers;
* `Token.stop?` — the offset behind a token;
* `Token.display` — a token on one line, long texts shortened.
-/
import Graft.Text.Quoted
import Graft.Text.Numeral

namespace Graft

/-- The kinds of tokens. -/
inductive Kind where
  | wildcard
  | inserter
  | folder
  | directive
  | stringLiteral
  | stringFragment
  | comment
  | operator
  | identifier
  | number
  | bracket
  | symbol
  deriving Repr, DecidableEq

namespace Kind

/-- The kind's name in capitals. -/
def name : Kind → String
  | wildcard => "WILDCARD"
  | inserter => "INSERTER"
  | folder => "FOLDER"
  | directive => "DIRECTIVE"
  | stringLiteral => "STRING_LITERAL"
  | stringFragment => "STRING_FRAGMENT"
  | comment => "COMMENT"
  | operator => "OPERATOR"
  | identifier => "IDENTIFIER"
  | number => "NUMBER"
  | bracket => "BRACKET"
  | symbol => "SYMBOL"

/-- All kinds. -/
def all : List Kind :=
  [wildcard, inserter, folder, directive, stringLiteral, stringFragment, comment, operator,
    identifier, number, bracket, symbol]

/-- The kind with the given name. -/
def ofName? (name : String) : Option Kind := all.find? (·.name == name)

/-- The kind's name in small letters. -/
def label (kind : Kind) : Text := kind.name.toList.map Char.toLower

/-- Markers and comments match no source token. -/
def isMeta : Kind → Bool
  | wildcard | inserter | folder | comment => true
  | _ => false

/-- The spelling of a marker; other kinds have none. -/
def marker : Kind → Text
  | wildcard => ['.', '.', '.']
  | inserter => ['>', '>', '>']
  | folder => ['<', '<', '<']
  | _ => []

end Kind

/-- A piece of text with its kind, depth and, in source text, offset. -/
structure Token where
  kind : Kind
  text : Text
  depth : Int
  offset : Option Int
  deriving Repr, DecidableEq

namespace Token

/-- The token is a marker or a comment. -/
def isMeta (token : Token) : Bool := token.kind.isMeta

/-- The offset right behind the token. -/
def stop? (token : Token) : Option Int := token.offset.map (· + token.text.length)

/-- The longest text that is displayed in full. -/
def displayWidth : Nat := 20

/-- The text as it is displayed: a long one ends with three dots. -/
def displayText (token : Token) : Text :=
  if displayWidth < token.text.length then token.text.take (displayWidth - 3) ++ ['.', '.', '.']
  else token.text

/-- The token on one line: its kind, text and depth, and its offset if it has one. -/
def display (token : Token) : Text :=
  let place := match token.offset with
    | none => []
    | some offset => '@' :: Text.ofInt offset
  "Token(".toList ++ token.kind.name.toList ++ ", ".toList ++ Text.quoted token.displayText
    ++ ", d=".toList ++ Text.ofInt token.depth ++ place ++ [')']

end Token

end Graft
