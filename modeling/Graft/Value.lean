/-
Values of settings.

Settings come from outside, and any value can be given for any of them.  A value that
does not serve is found only when it is used: as a ceiling it has to be a number, a
truth value counting as 0 or 1, and as a name it must not be compound.

* `Value.display`, `Value.quoted` — a value in a message, texts without and with
  quotes;
* `Value.bound` — the greatest count that a value admits as a ceiling;
* `Value.holds` — whether a value says yes.
-/
import Graft.Text.Numeral
import Graft.Text.Quoted

namespace Graft

mutual

/-- A value of a setting.  `decimal n k` is `n` divided by ten to the `k`. -/
inductive Value where
  | none
  | bool (b : Bool)
  | int (n : Int)
  | decimal (n : Int) (places : Nat)
  | text (t : Text)
  | list (items : Values)
  | record (fields : Fields)

/-- Values one after the other. -/
inductive Values where
  | nil
  | cons (first : Value) (others : Values)

/-- Values with names, one after the other. -/
inductive Fields where
  | nil
  | cons (name : Text) (value : Value) (others : Fields)

end

deriving instance Repr, DecidableEq for Value, Values, Fields

instance : Inhabited Value := ⟨.none⟩

namespace Value

/-- The kind of a value as it is called in messages. -/
def kindName : Value → String
  | none => "NoneType"
  | bool _ => "bool"
  | int _ => "int"
  | decimal _ _ => "float"
  | text _ => "str"
  | list _ => "list"
  | record _ => "dict"

/-- The value is a number. -/
def isNumber : Value → Bool
  | bool _ | int _ | decimal _ _ => true
  | _ => false

/-- The value holds other values. -/
def isCompound : Value → Bool
  | list _ | record _ => true
  | _ => false

/-- The greatest whole number that is not above the value; a value that is no number
has not even zero below it. -/
def bound : Value → Int
  | bool b => if b then 1 else 0
  | int n => n
  | decimal n places => n / (Nat.pow 10 places : Nat)
  | _ => -1

/-- The value says yes: it is neither nothing, nor false, nor zero, nor empty. -/
def holds : Value → Bool
  | none => false
  | bool b => b
  | int n => n != 0
  | decimal n _ => n != 0
  | text t => !t.isEmpty
  | list items => items != .nil
  | record fields => fields != .nil

/-! ### Decimals -/

/-- The widest part before the point that is written out. -/
def maxWhole : Int := 16

/-- The most zeros between the point and the first digit. -/
def maxLeadingZeros : Int := 3

/-- The exponent of a power of ten, with a sign and at least two digits. -/
def exponentText (e : Int) : Text :=
  let digits := Text.ofNat e.natAbs
  (if e < 0 then '-' else '+') :: List.replicate (2 - digits.length) '0' ++ digits

/-- A decimal with the given digits, the point standing `point` digits behind their
start.  Very large and very small ones are written with a power of ten. -/
def pointed (digits : Text) (point : Int) : Text :=
  if point < -maxLeadingZeros ∨ maxWhole < point then
    let fraction := if digits.length ≤ 1 then [] else '.' :: digits.drop 1
    digits.take 1 ++ fraction ++ 'e' :: exponentText (point - 1)
  else if point ≤ 0 then '0' :: '.' :: List.replicate (-point).toNat '0' ++ digits
  else
    let whole := digits.take point.toNat
    let fraction := digits.drop point.toNat
    whole ++ List.replicate (point.toNat - whole.length) '0'
      ++ '.' :: (if fraction.isEmpty then ['0'] else fraction)

/-- A decimal in its shortest form, with a point. -/
def decimalText (n : Int) (places : Nat) : Text :=
  let all := Text.ofNat n.natAbs
  let digits := (all.reverse.dropWhile (· == '0')).reverse
  let sign := if n < 0 then ['-'] else []
  if digits.isEmpty then "0.0".toList else sign ++ pointed digits (all.length - places)

/-! ### Values in messages -/

mutual

/-- A value in a message, texts between quotes. -/
def quoted : Value → Text
  | none => "None".toList
  | bool b => if b then "True".toList else "False".toList
  | int n => Text.ofInt n
  | decimal n places => decimalText n places
  | text t => Text.quoted t
  | list items => '[' :: Text.join ", ".toList (quotedItems items) ++ [']']
  | record fields => '\x7b' :: Text.join ", ".toList (quotedFields fields) ++ ['\x7d']

/-- Each of the values in a message. -/
def quotedItems : Values → List Text
  | .nil => []
  | .cons first others => quoted first :: quotedItems others

/-- Each of the values in a message, with its name. -/
def quotedFields : Fields → List Text
  | .nil => []
  | .cons name value others =>
    (Text.quoted name ++ ": ".toList ++ quoted value) :: quotedFields others

end

/-- A value in a message, a text as it is. -/
def display : Value → Text
  | text t => t
  | value => value.quoted

end Value

end Graft
