/-
Lines and columns identify offsets.

A place is a line and a column, both counted from one.  The lines in front of it are complete, so
their lengths with their newlines, and the columns in front of it, give back the offset that the
place was made from:

* `Place.offset` — the offset that a line and a column stand for;
* `Place.In` — a place on a line of a text, or right behind that line;
* `Place.Before` — the order of reading;
* `placeAfter_in`, `offset_placeAfter` — the place behind a part of a text, read back;
* `placeAfter_before` — what is longer ends at a later place;
* `placeAt_identifies` — the places of a text, and the two ends of an insertion.
-/
import Graft.Proofs.Text.Lines
import Graft.Proofs.Text.Margin

namespace Graft

namespace Text

/-- The offset of a place: the lines in front of its own, each with its newline, and the
characters in front of its column. -/
def Place.offset (t : Text) (place : Place) : Nat :=
  (unlines ((splitAtChar '\n' t).take (place.line - 1))).length + (place.column - 1)

/-- The text has the line, and the column lies on it or right behind it. -/
def Place.In (t : Text) (place : Place) : Prop :=
  1 ≤ place.line ∧ 1 ≤ place.column
    ∧ ∃ line, (splitAtChar '\n' t)[place.line - 1]? = some line ∧ place.column ≤ line.length + 1

/-- A place comes before another one: on an earlier line, or further left on the same line. -/
def Place.Before (a b : Place) : Prop :=
  a.line < b.line ∨ a.line = b.line ∧ a.column < b.column

/-! ### Lines in front of a place -/

theorem count_unlines {ls : List Text} (hls : ∀ l ∈ ls, '\n' ∉ l) :
    (unlines ls).count '\n' = ls.length := by
  induction ls with
  | nil => rfl
  | cons l ls ih =>
    rw [unlines_cons, List.count_append, List.count_cons_self, ih fun k hk => hls k (by simp [hk]),
      List.count_eq_zero.mpr (hls l (by simp)), Nat.zero_add, List.length_cons]

/-- A text is cut behind a part of it: there are complete lines, a line that the part ends in, and
the place behind the part. -/
theorem exists_lines_placeAfter (a b : Text) :
    ∃ (above : List Text) (line : Text) (below : List Text),
      splitAtChar '\n' (a ++ b) = above ++ (lastLine a ++ line) :: below
      ∧ a.length = (unlines above).length + (lastLine a).length
      ∧ placeAfter a = ⟨above.length + 1, (lastLine a).length + 1⟩ := by
  obtain ⟨above, habove, hfront⟩ := exists_unlines (endsLine_withoutLastLine a)
  have hlast := newline_not_mem_lastLine a
  have ha : unlines above ++ lastLine a = a := by
    rw [← hfront, withoutLastLine_append_lastLine]
  obtain ⟨line, below, hline⟩ := exists_splitAtChar_append hlast b
  refine ⟨above, line, below, ?_, ?_, ?_⟩
  · rw [← hline, ← splitAtChar_unlines habove, ← List.append_assoc, ha]
  · rw [← List.length_append, ha]
  · have hcount : a.count '\n' = above.length := by
      rw [← ha, List.count_append, count_unlines habove, List.count_eq_zero.mpr hlast, Nat.add_zero]
    rw [placeAfter, hcount]

/-- The place behind a part of a text is a place in the text. -/
theorem placeAfter_in (a b : Text) : (placeAfter a).In (a ++ b) := by
  obtain ⟨above, line, below, hsplit, -, hplace⟩ := exists_lines_placeAfter a b
  rw [hplace]
  refine ⟨by simp, by simp, lastLine a ++ line, by simp [hsplit], ?_⟩
  show (lastLine a).length + 1 ≤ _
  rw [List.length_append]
  omega

/-- The place behind a part of a text stands for the length of that part. -/
theorem offset_placeAfter (a b : Text) : (placeAfter a).offset (a ++ b) = a.length := by
  obtain ⟨above, line, below, hsplit, hlength, hplace⟩ := exists_lines_placeAfter a b
  rw [hplace, Place.offset, hsplit, hlength]
  simp

/-! ### The order of places -/

/-- What is longer ends on a later line, or further right on the same line. -/
theorem placeAfter_before (a : Text) {b : Text} (hb : b ≠ []) :
    (placeAfter a).Before (placeAfter (a ++ b)) := by
  by_cases hnewline : '\n' ∈ b
  · left
    have hcount := List.count_pos_iff.mpr hnewline
    simp only [placeAfter, List.count_append]
    omega
  · right
    have hlast : lastLine (a ++ b) = lastLine a ++ b := by
      have hsplit := withoutLastLine_append_lastLine a
      have hlast : '\n' ∉ lastLine a ++ b := by
        simp [newline_not_mem_lastLine a, hnewline]
      have h := (lastLine_append (endsLine_withoutLastLine a) hlast).1
      rwa [← List.append_assoc, hsplit] at h
    have hlength := List.length_pos_iff.mpr hb
    simp only [placeAfter, List.count_append, List.count_eq_zero.mpr hnewline, hlast,
      List.length_append, Nat.add_zero, true_and]
    omega

theorem placeAt_natCast (t : Text) (n : Nat) : placeAt t n = placeAfter (t.take n) := rfl

theorem placeAt_before {t : Text} {a b : Nat} (hab : a < b) (hb : b ≤ t.length) :
    (placeAt t a).Before (placeAt t b) := by
  have hsplit : t.take b = t.take a ++ (t.drop a).take (b - a) := by
    rw [← List.take_add, Nat.add_sub_cancel' (Nat.le_of_lt hab)]
  have hne : (t.drop a).take (b - a) ≠ [] := by
    rw [Ne, ← List.length_eq_zero_iff, List.length_take, List.length_drop]
    omega
  rw [placeAt_natCast, placeAt_natCast, hsplit]
  exact placeAfter_before _ hne

theorem placeAt_in (t : Text) (n : Nat) : (placeAt t n).In t := by
  have h := placeAfter_in (t.take n) (t.drop n)
  rwa [List.take_append_drop] at h

theorem offset_placeAt {t : Text} {n : Nat} (hn : n ≤ t.length) : (placeAt t n).offset t = n := by
  have h := offset_placeAfter (t.take n) (t.drop n)
  rwa [List.take_append_drop, List.length_take, Nat.min_eq_left hn] at h

end Text

/-! ### The ends of a location -/

namespace Location

open Text

/-- The location starts and stops at places of the text that stand for its two offsets, and it
does not stop before it starts. -/
def Decodes (t : Text) (location : Location) : Prop :=
  ∃ first last : Place, (location.line = first.line ∧ location.column = first.column)
    ∧ (location.endLine = some (last.line : Int) ∧ location.endColumn = some (last.column : Int))
    ∧ first.In t ∧ last.In t
    ∧ (first.offset t = location.offset ∧ last.offset t = location.endOffset)
    ∧ (first = last ∨ first.Before last)

theorem decodes_ofOffsets {t : Text} {start stop : Nat} (hle : start ≤ stop)
    (hstop : stop ≤ t.length) (file : Option Text) :
    (Location.ofOffsets t start stop file).Decodes t := by
  refine ⟨placeAt t start, placeAt t stop, ⟨rfl, rfl⟩, ⟨rfl, rfl⟩, placeAt_in t start,
    placeAt_in t stop, ⟨?_, ?_⟩, ?_⟩
  · rw [offset_placeAt (Nat.le_trans hle hstop)]
    rfl
  · rw [offset_placeAt hstop]
    rfl
  · rcases Nat.eq_or_lt_of_le hle with rfl | hlt
    · exact .inl rfl
    · exact .inr (placeAt_before hlt hstop)

/-- The location of an insertion decodes in the spliced text. -/
theorem decodes_splice (source patch : Text) (found : Match) (style : Style) :
    (splice source found patch style).inserted.Decodes (splice source found patch style).text := by
  have hle : ∀ head body tail : Text,
      head.length + body.length ≤ (head ++ body ++ tail).length := by
    intro head body tail
    simp only [List.length_append]
    omega
  exact decodes_ofOffsets (Nat.le_add_right _ _) (hle _ _ _) none

end Location

open Text

/-- **Line and column identify an offset.**  An offset in a text is the sum of the lines in front
of its own and of the columns in front of it, so that different offsets have different places, in
the same order.  The place of an insertion that a splice reports can be decoded like this in the
spliced text. -/
theorem placeAt_identifies (t : Text) :
    (∀ o : Int, 0 ≤ o → o ≤ t.length → (placeAt t o).In t ∧ (placeAt t o).offset t = o)
      ∧ (∀ a b : Int, 0 ≤ a → a < b → b ≤ t.length → (placeAt t a).Before (placeAt t b))
      ∧ (∀ a b : Int, 0 ≤ a → a ≤ t.length → 0 ≤ b → b ≤ t.length → a ≠ b →
        placeAt t a ≠ placeAt t b)
      ∧ ∀ (found : Match) (patch : Text) (style : Style),
        (splice t found patch style).inserted.Decodes (splice t found patch style).text := by
  have hoffset : ∀ o : Int, 0 ≤ o → o ≤ t.length → (placeAt t o).In t
      ∧ ((placeAt t o).offset t : Int) = o := by
    intro o hnonneg hle
    obtain ⟨n, rfl⟩ := Int.eq_ofNat_of_zero_le hnonneg
    exact ⟨placeAt_in t n, by rw [offset_placeAt (by omega)]⟩
  refine ⟨hoffset, ?_, ?_, fun found patch style => Location.decodes_splice t patch found style⟩
  · intro a b ha hab hb
    obtain ⟨m, rfl⟩ := Int.eq_ofNat_of_zero_le ha
    obtain ⟨n, rfl⟩ := Int.eq_ofNat_of_zero_le (show 0 ≤ b by omega)
    exact placeAt_before (by omega) (by omega)
  · intro a b ha hat hb hbt hne heq
    have hdecode := (hoffset a ha hat).2
    rw [heq, (hoffset b hb hbt).2] at hdecode
    exact hne hdecode.symm

/-- The places around an empty line and at the end of a text, and a block behind that line. -/
theorem placeAt_identifies_empty_line :
    let t := "a\n\né".toList
    (placeAt t 2 = ⟨2, 1⟩ ∧ (placeAt t 2).In t ∧ (placeAt t 2).offset t = (2 : Int))
      ∧ (placeAt t 1).Before (placeAt t 2) ∧ placeAt t 4 ≠ placeAt t 3
      ∧ (splice t ⟨3, none⟩ "b\nc\n".toList .block).inserted
        = ⟨3, 1, 3, 7, some 5, some 1, none⟩
      ∧ (splice t ⟨3, none⟩ "b\nc\n".toList .block).inserted.Decodes "a\n\nb\nc\né".toList := by
  intro t
  obtain ⟨hoffset, hbefore, hne, hsplice⟩ := placeAt_identifies t
  exact ⟨⟨by decide, hoffset 2 (by decide) (by decide)⟩,
    hbefore 1 2 (by decide) (by decide) (by decide),
    hne 4 3 (by decide) (by decide) (by decide) (by decide) (by decide), by decide,
    hsplice ⟨3, none⟩ "b\nc\n".toList .block⟩

end Graft
