/-
Reading escapes and numerals back.

A text is escaped byte by byte, and an integer is written in decimal digits.  Here both are read
back, by readers that take nothing but what an escaped text or a numeral may consist of:

* `Percent.bytes?`, `Percent.decode?` — the bytes and the text that an escaped text stands for;
* `Percent.decode?_encode` — an escaped text is read back;
* `Percent.not_mem_encode` — a character that is escaped does not occur in an escaped text;
* `Text.intOf?`, `Text.intOf?_ofInt` — a numeral is read back.
-/
import Graft.Proofs.Text.Encoding
import Graft.Text.Percent

namespace Graft

namespace Percent

/-- The value of a hexadecimal digit in capitals. -/
def hexValue? (c : Char) : Option Nat := "0123456789ABCDEF".toList.idxOf? c

/-- The bytes of an escaped text.  It consists of characters that stand for themselves and of bytes
that are written as a percent sign and two hexadecimal digits; any other text has no bytes. -/
def bytes? : Text → Option (List UInt8)
  | [] => some []
  | '%' :: high :: low :: cs => do
    let h ← hexValue? high
    let l ← hexValue? low
    return UInt8.ofNat (h * 16 + l) :: (← bytes? cs)
  | c :: cs => if isUnreserved c then (bytes? cs).map (String.utf8EncodeChar c ++ ·) else none

/-- The text that an escaped text stands for. -/
def decode? (t : Text) : Option Text := do
  let bytes ← bytes? t
  (Utf8.decode bytes).toOption

theorem hexValue?_hexDigit : ∀ n < 16, hexValue? (hexDigit n) = some n := by decide

theorem bytes?_encodeByte (b : UInt8) (t : Text) :
    bytes? (encodeByte b ++ t) = (bytes? t).map (b :: ·) := by
  have hb : b.toNat < 256 := b.toNat_lt
  have hvalue : UInt8.ofNat (b.toNat / 16 * 16 + b.toNat % 16) = b := by
    rw [Nat.div_add_mod', UInt8.ofNat_toNat]
  rw [encodeByte, List.cons_append, List.cons_append, List.cons_append, List.nil_append, bytes?,
    hexValue?_hexDigit _ (by omega), hexValue?_hexDigit _ (by omega)]
  cases bytes? t with
  | none => rfl
  | some bs => exact congrArg (fun b => some (b :: bs)) hvalue

theorem bytes?_encodeBytes (bs : List UInt8) (t : Text) :
    bytes? (bs.flatMap encodeByte ++ t) = (bytes? t).map (bs ++ ·) := by
  induction bs with
  | nil => simp
  | cons b bs ih =>
    rw [List.flatMap_cons, List.append_assoc, bytes?_encodeByte, ih, Option.map_map]
    rfl

theorem bytes?_cons {c : Char} (hc : isUnreserved c = true) (t : Text) :
    bytes? (c :: t) = (bytes? t).map (String.utf8EncodeChar c ++ ·) := by
  rw [bytes?.eq_3, if_pos hc]
  rintro high low cs rfl -
  exact absurd hc (by decide)

theorem bytes?_encode (t : Text) : bytes? (encode t) = some (Utf8.encode t) := by
  induction t with
  | nil => rfl
  | cons c t ih =>
    have hencode : encode (c :: t) = encodeChar c ++ encode t := List.flatMap_cons
    rw [hencode, encodeChar, Utf8.encode_cons]
    split
    · rw [List.singleton_append, bytes?_cons ‹_›, ih]
      rfl
    · rw [bytes?_encodeBytes, ih]
      rfl

/-- An escaped text stands for the text that was escaped. -/
theorem decode?_encode (t : Text) : decode? (encode t) = some t := by
  rw [decode?, bytes?_encode, Option.bind_eq_bind, Option.bind_some, Utf8.decode_encode]
  rfl

theorem isUnreserved_hexDigit : ∀ n < 16, isUnreserved (hexDigit n) = true := by decide

/-- An escaped text has no characters but those that stand for themselves, and percent signs. -/
theorem isUnreserved_of_mem_encode {t : Text} {c : Char} (h : c ∈ encode t) :
    isUnreserved c = true ∨ c = '%' := by
  obtain ⟨d, -, hd⟩ := List.mem_flatMap.mp h
  rw [encodeChar] at hd
  split at hd
  · rw [List.mem_singleton.mp hd]
    exact .inl ‹_›
  · obtain ⟨b, -, hb⟩ := List.mem_flatMap.mp hd
    have hlt : b.toNat < 256 := b.toNat_lt
    simp only [encodeByte, List.mem_cons, List.not_mem_nil, or_false] at hb
    rcases hb with rfl | rfl | rfl
    · exact .inr rfl
    · exact .inl (isUnreserved_hexDigit _ (by omega))
    · exact .inl (isUnreserved_hexDigit _ (by omega))

theorem not_mem_encode {c : Char} (hc : isUnreserved c = false) (hne : c ≠ '%') (t : Text) :
    c ∉ encode t := by
  intro h
  rcases isUnreserved_of_mem_encode h with hc' | hc'
  · simp [hc] at hc'
  · exact hne hc'

end Percent

namespace Text

/-- The number that decimal digits stand for. -/
def natOf? (t : Text) : Option Nat :=
  if t ≠ [] ∧ t.all Char.isDigit then some (Nat.ofDigitChars 10 t 0) else none

/-- The integer that a numeral stands for: digits, possibly behind a minus sign. -/
def intOf? : Text → Option Int
  | '-' :: t => (natOf? t).map fun n => -(n : Int)
  | t => (natOf? t).map Int.ofNat

theorem isDigit_of_mem_ofNat {n : Nat} {c : Char} (h : c ∈ ofNat n) : c.isDigit = true :=
  Nat.isDigit_of_mem_toDigits (by decide) (by decide) h

theorem natOf?_ofNat (n : Nat) : natOf? (ofNat n) = some n := by
  have hdigits : ofNat n ≠ [] ∧ (ofNat n).all Char.isDigit = true :=
    ⟨Nat.toDigits_ne_nil, List.all_eq_true.mpr fun c hc => isDigit_of_mem_ofNat hc⟩
  rw [natOf?, if_pos hdigits]
  exact congrArg some Nat.ofDigitChars_ten_toDigits

/-- The numeral of an integer stands for that integer. -/
theorem intOf?_ofInt (n : Int) : intOf? (ofInt n) = some n := by
  cases n with
  | ofNat n =>
    have hminus : ∀ t : Text, ofNat n ≠ '-' :: t := by
      intro t h
      have hdigit : Char.isDigit '-' = true := isDigit_of_mem_ofNat (n := n) (by simp [h])
      exact absurd hdigit (by decide)
    rw [ofInt, intOf?.eq_2 _ hminus, natOf?_ofNat]
    rfl
  | negSucc n =>
    rw [ofInt, intOf?, natOf?_ofNat]
    rfl

/-- A numeral has no characters but digits and a minus sign. -/
theorem isDigit_of_mem_ofInt {n : Int} {c : Char} (h : c ∈ ofInt n) :
    c.isDigit = true ∨ c = '-' := by
  cases n with
  | ofNat n => exact .inl (isDigit_of_mem_ofNat h)
  | negSucc n =>
    rcases List.mem_cons.mp h with rfl | h
    · exact .inr rfl
    · exact .inl (isDigit_of_mem_ofNat h)

end Text

end Graft
