/-
Whole numbers as text.

* `ofInt` — the decimal numeral of an integer;
* `decimalValue?` — the value of a decimal digit of any script;
* `readInt?` — reads an integer: blanks around it, one sign, digits of any
  script, and single underscores between two digits are allowed.
-/
import Graft.Text.Basic

namespace Graft.Text

/-- The zeros of the decimal digits beyond ASCII; the digits of a script follow
its zero in order. -/
def decimalZeros : List Nat :=
  [
    0x0660, 0x06F0, 0x07C0, 0x0966, 0x09E6, 0x0A66, 0x0AE6, 0x0B66, 0x0BE6, 0x0C66,
    0x0CE6, 0x0D66, 0x0DE6, 0x0E50, 0x0ED0, 0x0F20, 0x1040, 0x1090, 0x17E0, 0x1810,
    0x1946, 0x19D0, 0x1A80, 0x1A90, 0x1B50, 0x1BB0, 0x1C40, 0x1C50, 0xA620, 0xA8D0,
    0xA900, 0xA9D0, 0xA9F0, 0xAA50, 0xABF0, 0xFF10, 0x104A0, 0x10D30, 0x11066, 0x110F0,
    0x11136, 0x111D0, 0x112F0, 0x11450, 0x114D0, 0x11650, 0x116C0, 0x11730, 0x118E0, 0x11950,
    0x11C50, 0x11D50, 0x11DA0, 0x16A60, 0x16AC0, 0x16B50, 0x1D7CE, 0x1D7D8, 0x1D7E2, 0x1D7EC,
    0x1D7F6, 0x1E140, 0x1E2F0, 0x1E950, 0x1FBF0]

/-- The value of a decimal digit. -/
def decimalValue? (c : Char) : Option Nat :=
  if c.isDigit then some (c.toNat - 0x30)
  else (decimalZeros.find? fun first => first ≤ c.toNat && c.toNat ≤ first + 9).map (c.toNat - ·)

/-- The decimal numeral of a natural number. -/
def ofNat (n : Nat) : Text := Nat.toDigits 10 n

/-- The decimal numeral of an integer, with `-` in front of a negative one. -/
def ofInt : Int → Text
  | .ofNat n => ofNat n
  | .negSucc n => '-' :: ofNat (n + 1)

/-- The longest numeral that is read as an integer, in digits. -/
def maxDigits : Nat := 4300

/-- The digits of a numeral in which single underscores may stand between two
digits. -/
def digits? : Text → Option (List Nat)
  | [] => none
  | [c] => (decimalValue? c).map ([·])
  | c :: '_' :: cs => return (← decimalValue? c) :: (← digits? cs)
  | c :: cs => return (← decimalValue? c) :: (← digits? cs)

/-- A blank that may surround a numeral: of the separators below the space only
the line breaks and the tabs. -/
def isNumeralBlank (c : Char) : Bool :=
  isBlank c && !(0x1C ≤ c.toNat && c.toNat ≤ 0x1F)

/-- Reads an integer. -/
def readInt? (t : Text) : Option Int := do
  let t := ((t.dropWhile isNumeralBlank).reverse.dropWhile isNumeralBlank).reverse
  let (negative, t) := match t with
    | '-' :: cs => (true, cs)
    | '+' :: cs => (false, cs)
    | cs => (false, cs)
  let ds ← digits? t
  if maxDigits < ds.length then none
  else
    let n : Nat := ds.foldl (fun acc d => 10 * acc + d) 0
    return if negative then -(n : Int) else n

end Graft.Text
