/-
Percent-encoding.

Each byte of a text that is not a letter, a digit, or one of `_`, `.`, `-`, `~`
is written as a percent sign and two upper-case hexadecimal digits.
-/
import Graft.Text.Utf8

namespace Graft.Percent

/-- A character that stands for itself. -/
def isUnreserved (c : Char) : Bool :=
  c.isAlphanum || c == '_' || c == '.' || c == '-' || c == '~'

/-- The upper-case hexadecimal digit of a number below sixteen. -/
def hexDigit (n : Nat) : Char := (Nat.digitChar n).toUpper

/-- A byte as a percent sign and two digits. -/
def encodeByte (b : UInt8) : Text := ['%', hexDigit (b.toNat / 16), hexDigit (b.toNat % 16)]

/-- How a character is written. -/
def encodeChar (c : Char) : Text :=
  if isUnreserved c then [c] else (String.utf8EncodeChar c).flatMap encodeByte

/-- How a text is written. -/
def encode (t : Text) : Text := t.flatMap encodeChar

end Graft.Percent
