/-
Character classes of lexemes.

What is blank is nothing else: a blank continues no word, no number and no directive,
opens no literal, and is no part of an operator, a comment sign or a marker.  So a
blank ends whatever stands in front of it, a line comment and what is left open
excepted.
-/
import Graft.Token.Lexeme

namespace Graft

namespace Text

/-- The code points of blanks. -/
def blankCodes : List Nat :=
  [0x09, 0x0A, 0x0B, 0x0C, 0x0D, 0x1C, 0x1D, 0x1E, 0x1F, 0x20, 0x85, 0xA0, 0x1680, 0x2000, 0x2001,
    0x2002, 0x2003, 0x2004, 0x2005, 0x2006, 0x2007, 0x2008, 0x2009, 0x200A, 0x2028, 0x2029, 0x202F,
    0x205F, 0x3000]

theorem toNat_mem_blankCodes {c : Char} (h : isBlank c = true) : c.toNat ∈ blankCodes := by
  simp only [isBlank, Bool.or_eq_true, Bool.and_eq_true, decide_eq_true_eq, beq_iff_eq] at h
  -- the ranges of the class, in its order
  have hranges : blankCodes = List.range' 0x09 5 ++ List.range' 0x1C 5 ++ [0x85, 0xA0, 0x1680]
      ++ List.range' 0x2000 11 ++ [0x2028, 0x2029, 0x202F, 0x205F, 0x3000] := by decide
  simp only [hranges, List.mem_append, List.mem_range'_1, List.mem_cons, List.not_mem_nil, or_false]
  omega

/-- What holds of the listed code points holds of every blank. -/
theorem blank_forall (P : Char → Prop) (h : ∀ n ∈ blankCodes, P (Char.ofNat n)) {c : Char}
    (hc : isBlank c = true) : P c := by
  have hp := h _ (toNat_mem_blankCodes hc)
  rwa [Char.ofNat_toNat] at hp

theorem isAllBlank_iff {t : Text} : isAllBlank t = true ↔ ∀ c ∈ t, isBlank c = true :=
  List.all_eq_true

theorem isWordChar_of_isBlank {c : Char} (h : isBlank c = true) : isWordChar c = false :=
  blank_forall (fun c => isWordChar c = false) (by decide +kernel) h

end Text

namespace Lexeme

theorem isWordStart_of_isBlank {c : Char} (h : Text.isBlank c = true) : isWordStart c = false :=
  Text.blank_forall (fun c => isWordStart c = false) (by decide) h

theorem isDigit_of_isBlank {c : Char} (h : Text.isBlank c = true) : c.isDigit = false :=
  Text.blank_forall (fun c => c.isDigit = false) (by decide) h

/-- A blank is none of the characters that mean something to the scanner. -/
theorem ne_of_isBlank {c : Char} (h : Text.isBlank c = true) :
    c ≠ '/' ∧ c ≠ '*' ∧ c ≠ '#' ∧ c ≠ '\\' ∧ c ≠ '.' ∧ c ≠ '<' ∧ c ≠ '>' :=
  Text.blank_forall
    (fun c => c ≠ '/' ∧ c ≠ '*' ∧ c ≠ '#' ∧ c ≠ '\\' ∧ c ≠ '.' ∧ c ≠ '<' ∧ c ≠ '>')
    (by decide) h

theorem isQuote_of_isBlank {c : Char} (h : Text.isBlank c = true) : isQuote c = false :=
  Text.blank_forall (fun c => isQuote c = false) (by decide) h

theorem isOperatorPair_of_isBlank {c d : Char} (h : Text.isBlank d = true) :
    isOperatorPair c d = false := by
  have hd : d ∉ ['=', '+', '-', '>', '&', '|', '<'] :=
    Text.blank_forall (fun d => d ∉ ['=', '+', '-', '>', '&', '|', '<']) (by decide) h
  simp only [List.mem_cons, List.not_mem_nil, or_false, not_or] at hd
  simp [isOperatorPair, hd]

theorem isWordChar_of_isWordStart {c : Char} (h : isWordStart c = true) :
    Text.isWordChar c = true := by
  simp only [isWordStart, Bool.or_eq_true] at h
  simp only [Text.isWordChar, Text.isAlphanumeric, Char.isAlphanum, Bool.or_eq_true]
  exact h.elim (fun h => .inl (.inl (.inl h))) .inr

end Lexeme

end Graft
