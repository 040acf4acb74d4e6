/-
Quoted texts.

Messages show a text between quotes on one line.  The quotes are single, unless
the text has single quotes and no double ones.  The quote in use and the
backslash are escaped by a backslash, newline, carriage return and tab have
escapes of one letter, and every other character that cannot be shown is written
by its code point in the shortest of three hexadecimal forms.
-/
import Graft.Text.Printable

namespace Graft.Text

/-- The single quote. -/
def singleQuote : Char := '\x27'

/-- The double quote. -/
def doubleQuote : Char := '\x22'

/-- The lower-case hexadecimal numeral of `n` with at least `width` digits. -/
def hexadecimal (width n : Nat) : Text :=
  let digits := Nat.toDigits 16 n
  List.replicate (width - digits.length) '0' ++ digits

/-- How a character is written between the given quotes. -/
def escape (quote c : Char) : Text :=
  if c = quote || c = '\\' then ['\\', c]
  else if c = '\n' then ['\\', 'n']
  else if c = '\r' then ['\\', 'r']
  else if c = '\t' then ['\\', 't']
  else if isPrintable c then [c]
  else if c.toNat < 0x100 then '\\' :: 'x' :: hexadecimal 2 c.toNat
  else if c.toNat < 0x10000 then '\\' :: 'u' :: hexadecimal 4 c.toNat
  else '\\' :: 'U' :: hexadecimal 8 c.toNat

/-- The quote that a text is shown between. -/
def quoteFor (t : Text) : Char :=
  if t.contains singleQuote && !t.contains doubleQuote then doubleQuote else singleQuote

/-- The text between quotes. -/
def quoted (t : Text) : Text :=
  quoteFor t :: t.flatMap (escape (quoteFor t)) ++ [quoteFor t]

/-- The quoted texts in brackets, separated by commas. -/
def quotedList (ts : List Text) : Text :=
  '[' :: join [',', ' '] (ts.map quoted) ++ [']']

end Graft.Text
