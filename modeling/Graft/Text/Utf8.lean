/-
UTF-8.

* `encode` — the bytes of a text;
* `decode` — the text of a sequence of bytes, or the first fault in it;
* `Fault.message` — the wording of a fault.

A fault names the bytes that cannot be read: the start byte and those of its
continuation bytes that were still in order.
-/
import Graft.Text.Quoted
import Graft.Text.Numeral

namespace Graft.Utf8

/-- The bytes of a text. -/
def encode (t : Text) : List UInt8 := t.flatMap String.utf8EncodeChar

/-- The number of bytes of a text. -/
def size (t : Text) : Nat := (encode t).length

/-- Why bytes cannot be read. -/
inductive Reason where
  | invalidStart
  | invalidContinuation
  | unexpectedEnd
  deriving Repr, DecidableEq

/-- The first bytes that cannot be read. -/
structure Fault where
  position : Nat
  first : UInt8
  count : Nat
  reason : Reason
  deriving Repr, DecidableEq

/-- The closed ranges that the bytes after a start byte lie in; `none` for a byte
that starts nothing. -/
def continuations? (start : UInt8) : Option (List (UInt8 × UInt8)) :=
  let any : UInt8 × UInt8 := (0x80, 0xBF)
  if start < 0x80 then some []
  else if start < 0xC2 then none
  else if start < 0xE0 then some [any]
  else if start = 0xE0 then some [(0xA0, 0xBF), any]
  else if start = 0xED then some [(0x80, 0x9F), any]
  else if start < 0xF0 then some [any, any]
  else if start = 0xF0 then some [(0x90, 0xBF), any, any]
  else if start < 0xF4 then some [any, any, any]
  else if start = 0xF4 then some [(0x80, 0x8F), any, any]
  else none

/-- How many of the following bytes lie in their ranges, one after the other. -/
def inOrder : List (UInt8 × UInt8) → List UInt8 → Nat
  | (low, high) :: ranges, b :: bs =>
    if low ≤ b && b ≤ high then inOrder ranges bs + 1 else 0
  | _, _ => 0

/-- The bits of a start byte that belong to the code point, given the number of
continuation bytes. -/
def startBits (start : UInt8) : Nat → Nat
  | 0 => start.toNat
  | 1 => start.toNat % 0x20
  | 2 => start.toNat % 0x10
  | _ => start.toNat % 0x08

/-- The character of a start byte and its continuation bytes. -/
def assemble (start : UInt8) (following : List UInt8) : Char :=
  Char.ofNat <| following.foldl (fun n b => n * 0x40 + b.toNat % 0x40)
    (startBits start following.length)

/-- Reads the bytes that follow position `position`. -/
def decodeFrom (position : Nat) : List UInt8 → Except Fault Text
  | [] => .ok []
  | start :: bs =>
    match continuations? start with
    | none => .error ⟨position, start, 1, .invalidStart⟩
    | some ranges =>
      let n := inOrder ranges bs
      if n < ranges.length then
        .error ⟨position, start, n + 1,
          if n = bs.length then .unexpectedEnd else .invalidContinuation⟩
      else
        (decodeFrom (position + n + 1) (bs.drop n)).map (assemble start (bs.take n) :: ·)
termination_by bytes => bytes.length
decreasing_by simp only [List.length_cons, List.length_drop]; omega

/-- The text of the bytes. -/
def decode (bytes : List UInt8) : Except Fault Text := decodeFrom 0 bytes

/-- The wording of a reason. -/
def Reason.message : Reason → String
  | .invalidStart => "invalid start byte"
  | .invalidContinuation => "invalid continuation byte"
  | .unexpectedEnd => "unexpected end of data"

/-- The wording of a fault. -/
def Fault.message (fault : Fault) : Text :=
  let place :=
    if fault.count = 1 then
      "byte 0x".toList ++ Text.hexadecimal 2 fault.first.toNat ++ " in position ".toList
        ++ Text.ofNat fault.position
    else
      "bytes in position ".toList ++ Text.ofNat fault.position ++ ['-']
        ++ Text.ofNat (fault.position + fault.count - 1)
  "'utf-8' codec can't decode ".toList ++ place ++ ": ".toList ++ fault.reason.message.toList

end Graft.Utf8
