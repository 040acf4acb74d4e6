/-
Byte offsets and offsets of characters.

A byte offset of a text stands for the character that its byte belongs to, also when it lies
inside the bytes of that character.  This is the number of characters that lie whole in front of
the byte:

* `wholeChars` — the number of whole characters in the first bytes;
* `le_wholeChars_iff` — so many characters are whole if and only if their bytes are there;
* `wholeChars_le`, `wholeChars_mono` — it is an offset of the text, and it only grows;
* `countWithin` — how many characters have all their bytes among the first ones;
* `charIndex?_eq` — the offset that a byte offset stands for;
* `charIndex_counts` — it is that count, and it undoes the encoding between two characters.
-/
import Graft.SyntaxTree
import Graft.Proofs.Text.Encoding

namespace Graft

namespace Utf8

theorem size_cons (c : Char) (t : Text) : size (c :: t) = c.utf8Size + size t := by
  rw [size, encode_cons, List.length_append, String.length_utf8EncodeChar, ← size]

theorem length_le_size (t : Text) : t.length ≤ size t := by
  induction t with
  | nil => exact Nat.le_refl _
  | cons c t ih =>
    have hc := c.utf8Size_pos
    rw [size_cons, List.length_cons]
    omega

theorem size_take_le (t : Text) (n : Nat) : size (t.take n) ≤ size t :=
  (encode_isPrefix_iff.mpr (List.take_prefix n t)).length_le

/-- How many characters of a text lie whole in its first bytes. -/
def wholeChars : Text → Nat → Nat
  | [], _ => 0
  | c :: t, bytes => if c.utf8Size ≤ bytes then wholeChars t (bytes - c.utf8Size) + 1 else 0

theorem wholeChars_le (t : Text) (bytes : Nat) : wholeChars t bytes ≤ t.length := by
  fun_induction wholeChars t bytes with
  | case1 => exact Nat.le_refl _
  | case2 bytes c t hc ih => exact Nat.succ_le_succ ih
  | case3 bytes c t hc => exact Nat.zero_le _

/-- So many characters are whole in the first bytes if and only if the bytes of so many are there:
counting whole characters and counting bytes are adjoint. -/
theorem le_wholeChars_iff {t : Text} {bytes n : Nat} (hn : n ≤ t.length) :
    n ≤ wholeChars t bytes ↔ size (t.take n) ≤ bytes := by
  fun_induction wholeChars t bytes generalizing n with
  | case1 bytes =>
    obtain rfl : n = 0 := Nat.le_zero.mp hn
    exact iff_of_true (Nat.le_refl _) (Nat.zero_le _)
  | case2 bytes c t hc ih =>
    cases n with
    | zero => exact iff_of_true (Nat.zero_le _) (Nat.zero_le _)
    | succ n =>
      rw [List.take_succ_cons, size_cons, Nat.succ_le_succ_iff, ih (Nat.le_of_succ_le_succ hn)]
      omega
  | case3 bytes c t hc =>
    cases n with
    | zero => exact iff_of_true (Nat.le_refl _) (Nat.zero_le _)
    | succ n =>
      rw [List.take_succ_cons, size_cons]
      omega

theorem wholeChars_mono (t : Text) {a b : Nat} (hab : a ≤ b) : wholeChars t a ≤ wholeChars t b := by
  have hle := wholeChars_le t a
  have hbytes : size (t.take (wholeChars t a)) ≤ a := (le_wholeChars_iff hle).mp (Nat.le_refl _)
  exact (le_wholeChars_iff hle).mpr (Nat.le_trans hbytes hab)

/-- Where every character is one byte, offsets are byte offsets. -/
theorem wholeChars_of_size_eq {t : Text} (hsize : size t = t.length) :
    ∀ {bytes : Nat}, bytes ≤ size t → wholeChars t bytes = bytes := by
  induction t with
  | nil =>
    intro bytes hle
    exact (Nat.le_zero.mp hle).symm
  | cons c t ih =>
    intro bytes hle
    have hc := c.utf8Size_pos
    have hlength := length_le_size t
    rw [size_cons] at hsize hle
    rw [List.length_cons] at hsize
    have hone : c.utf8Size = 1 := by omega
    cases bytes with
    | zero => rw [wholeChars, if_neg (by omega)]
    | succ bytes =>
      rw [wholeChars, if_pos (by omega), hone, Nat.add_sub_cancel, ih (by omega) (by omega)]

theorem wholeChars_zero (t : Text) : wholeChars t 0 = 0 := by
  cases t with
  | nil => rfl
  | cons c t => exact if_neg (Nat.not_le.mpr c.utf8Size_pos)

/-- Where the bytes of a start of the text end, its characters are the whole ones. -/
theorem wholeChars_size_append (a b : Text) : wholeChars (a ++ b) (size a) = a.length := by
  induction a with
  | nil => exact wholeChars_zero b
  | cons c a ih =>
    rw [List.cons_append, wholeChars, size_cons, if_pos (Nat.le_add_right _ _),
      Nat.add_sub_cancel_left, ih, List.length_cons]

/-! ### Counting by the bytes -/

/-- How many characters of a text have all their bytes among its first bytes: the text up to such
a character, and with it, is encoded in them. -/
def countWithin (t : Text) (bytes : Nat) : Nat :=
  (List.range t.length).countP fun i => encode (t.take (i + 1)) <+: (encode t).take bytes

theorem encode_take_isPrefix_iff {t : Text} {n bytes : Nat} :
    encode (t.take n) <+: (encode t).take bytes ↔ size (t.take n) ≤ bytes := by
  rw [List.prefix_take_iff]
  exact and_iff_right (encode_isPrefix_iff.mpr (List.take_prefix n t))

/-- The characters with all their bytes among the first ones are the first ones themselves. -/
theorem countWithin_eq (t : Text) (bytes : Nat) : countWithin t bytes = wholeChars t bytes := by
  -- the offsets are cut behind the whole characters: all in front are counted, none behind
  obtain ⟨others, hlength⟩ := Nat.exists_eq_add_of_le (wholeChars_le t bytes)
  have hwithin : ∀ i < wholeChars t bytes + others,
      encode (t.take (i + 1)) <+: (encode t).take bytes ↔ i < wholeChars t bytes := by
    intro i hi
    rw [encode_take_isPrefix_iff, ← le_wholeChars_iff (hlength ▸ hi), Nat.succ_le_iff]
  rw [countWithin, hlength, List.range_add, List.countP_append, List.countP_eq_length.mpr,
    List.countP_eq_zero.mpr, List.length_range, Nat.add_zero]
  · intro i hi
    obtain ⟨k, hk, rfl⟩ := List.mem_map.mp hi
    have hk' := List.mem_range.mp hk
    rw [decide_eq_true_eq, hwithin _ (by omega)]
    omega
  · intro i hi
    have hi' := List.mem_range.mp hi
    exact decide_eq_true ((hwithin i (by omega)).mpr hi')

end Utf8

namespace SyntaxTree

open Utf8

/-- The table of the characters that bytes belong to, for a text that starts at an offset. -/
theorem getElem?_charIndices_from (t : Text) : ∀ (offset : Nat) {bytes : Nat}, bytes ≤ size t →
    (((t.zipIdx offset).flatMap fun (c, i) => List.replicate (String.utf8EncodeChar c).length i)
      ++ [offset + t.length])[bytes]? = some (offset + wholeChars t bytes) := by
  induction t with
  | nil =>
    intro offset bytes hle
    obtain rfl : bytes = 0 := Nat.le_zero.mp hle
    rfl
  | cons c t ih =>
    intro offset bytes hle
    rw [size_cons] at hle
    rw [List.zipIdx_cons, List.flatMap_cons, List.append_assoc, wholeChars]
    dsimp only
    rw [String.length_utf8EncodeChar]
    split
    · -- the byte lies behind the first character
      rw [List.getElem?_append_right (by simpa using ‹_›), List.length_replicate,
        List.length_cons, Nat.add_comm t.length, ← Nat.add_assoc, ih _ (by omega), Nat.add_assoc,
        Nat.add_comm 1]
    · rw [List.getElem?_append_left (by simp; omega), List.getElem?_replicate,
        if_pos (by omega), Nat.add_zero]

theorem getElem?_charIndices {t : Text} {bytes : Nat} (hle : bytes ≤ size t) :
    (charIndices t)[bytes]? = some (wholeChars t bytes) := by
  have hget := getElem?_charIndices_from t 0 hle
  simp only [Nat.zero_add] at hget
  exact hget

/-- A byte offset in a text stands for the number of characters that are whole in front of it. -/
theorem charIndex?_eq {t : Text} {bytes : Nat} (hle : bytes ≤ size t) :
    charIndex? t bytes = some (wholeChars t bytes : Int) := by
  unfold charIndex?
  split
  · rw [wholeChars_of_size_eq ‹_› hle]
  · dsimp only
    rw [if_neg (by omega), if_neg (by omega), Int.toNat_natCast, getElem?_charIndices hle]
    rfl

/-- A byte inside a character stands for that character. -/
example : [0, 1, 2, 3].map (charIndex? "éa".toList) = [some 0, some 0, some 1, some 2] := by
  decide

/-- A byte offset in a text stands for the number of characters that have all their bytes in front
of it, and the table says the same where it is not needed.  So a later byte offset stands for no
earlier offset, and the byte offset between two characters stands for the offset between them. -/
theorem charIndex_counts (t : Text) :
    (∀ bytes : Nat, bytes ≤ size t → charIndex? t bytes = some (countWithin t bytes : Int)
        ∧ (charIndices t)[bytes]? = some (countWithin t bytes))
      ∧ (∀ a b : Nat, a ≤ b → b ≤ size t → ∃ i ∈ charIndex? t a, ∃ j ∈ charIndex? t b, i ≤ j)
      ∧ ∀ i : Nat, i ≤ t.length → charIndex? t (size (t.take i)) = some (i : Int) := by
  refine ⟨fun bytes hle => ?_, fun a b hab hb => ?_, fun i hi => ?_⟩
  · rw [countWithin_eq]
    exact ⟨charIndex?_eq hle, getElem?_charIndices hle⟩
  · exact ⟨_, charIndex?_eq (Nat.le_trans hab hb), _, charIndex?_eq hb,
      Int.ofNat_le.mpr (wholeChars_mono t hab)⟩
  · have hwhole := wholeChars_size_append (t.take i) (t.drop i)
    rw [List.take_append_drop, List.length_take, Nat.min_eq_left hi] at hwhole
    rw [charIndex?_eq (size_take_le t i), hwhole]

/-- Characters of one to four bytes: a byte offset inside the third one, one inside the fourth one,
and the one between them. -/
theorem charIndex_counts_widths :
    (5 ≤ size "aé€😀".toList ∧ charIndex? "aé€😀".toList 5 = some 2)
      ∧ (9 ≤ size "aé€😀".toList ∧ ∃ i ∈ charIndex? "aé€😀".toList 5,
          ∃ j ∈ charIndex? "aé€😀".toList 9, i ≤ j)
      ∧ (3 ≤ "aé€😀".toList.length ∧ charIndex? "aé€😀".toList 6 = some 3) := by
  obtain ⟨hcount, hmono, hbetween⟩ := charIndex_counts "aé€😀".toList
  exact ⟨⟨by decide, (hcount 5 (by decide)).1⟩, ⟨by decide, hmono 5 9 (by decide) (by decide)⟩,
    ⟨by decide, hbetween 3 (by decide)⟩⟩

end SyntaxTree

end Graft
