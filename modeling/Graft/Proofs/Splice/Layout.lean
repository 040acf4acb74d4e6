/-
The layout of a block.

A block that is inserted behind the indentation of a line stands in front of that line, on
lines of its own.  The lines of the source stay as they are and in their order.  There is
one exception: in front of an indented first line the block starts with an empty line.

* `blockHead_append` — the text in front of a block;
* `text_splice_block` — the text with the block in it;
* `splice_block_lines` — the same line by line.
-/
import Graft.Proofs.Text.Lines
import Graft.Proofs.Text.Margin

namespace Graft

open Text

namespace Splice

/-- The line in front of a block at an offset in a line that starts at `start`: an empty one
in front of an indented first line, and otherwise none. -/
def strayLine (start offset : Nat) : List Text := if start = 0 ∧ offset ≠ 0 then [[]] else []

/-- The text in front of a block that is inserted behind an indentation. -/
theorem blockHead_append {front indent : Text} (hfront : EndsLine front)
    (hindent : ∀ c ∈ indent, isBlank c = true ∧ c ≠ '\n') (offset : Nat) :
    blockHead offset (front ++ indent) = unlines (strayLine front.length offset) ++ front := by
  rw [blockHead, kept_append hfront hindent, strayLine]
  rcases hfront with rfl | hlast
  · by_cases hoffset : offset = 0
    · simp [hoffset, unlines]
    · simp [hoffset, unlines, endsWithNewline]
  · have hne : front.length ≠ 0 := by
      rw [Ne, List.length_eq_zero_iff]
      rintro rfl
      simp at hlast
    rw [if_neg (by simp [endsWithNewline, hlast]), if_neg (by simp [hne])]
    rfl

/-- The text with a block of lines in it, which is inserted behind an indentation. -/
theorem text_splice_block {front indent : Text} (hfront : EndsLine front)
    (hindent : ∀ c ∈ indent, isBlank c = true ∧ c ≠ '\n') (rest : Text) {ls : List Text}
    (hls : ∀ l ∈ ls, '\n' ∉ l ∧ '\r' ∉ l) :
    (splice (front ++ indent ++ rest) ⟨(front ++ indent).length, none⟩ (unlines ls) .block).text
      = unlines (strayLine front.length (front ++ indent).length)
        ++ (front ++ unlines (ls.map (indent ++ ·)) ++ (indent ++ rest)) := by
  have hresume : resume ⟨(front ++ indent).length, none⟩ = (front ++ indent).length :=
    resume_of_le (by simp)
  show blockHead _ _ ++ indented (Splice.indent _) _ ++ startingAt _ _ = _
  rw [hresume, upTo_natCast, startingAt_natCast, List.take_left, List.drop_left,
    blockHead_append hfront hindent, indent_append hfront hindent, indented_eq,
    reindent_unlines hls]
  simp only [List.append_assoc]

end Splice

open Splice

/-- **A block adds whole lines.**  A block is inserted in a line that starts at `start`, and
only blanks stand in front of it there.  Its lines get these blanks and come in front of that
line, and an empty line comes in front of everything exactly if the line is the first one and
has blanks. -/
theorem splice_block_lines {source : Text} {start offset : Nat} {ls : List Text}
    (hstart : start ≤ offset) (hoffset : offset ≤ source.length)
    (hline : EndsLine (source.take start))
    (hblank : ∀ c ∈ (source.take offset).drop start, isBlank c = true ∧ c ≠ '\n')
    (hls : ∀ l ∈ ls, '\n' ∉ l ∧ '\r' ∉ l) :
    let indent := (source.take offset).drop start
    let layout := source.take start ++ unlines (ls.map (indent ++ ·)) ++ source.drop start
    let text := (splice source ⟨offset, none⟩ (unlines ls) .block).text
    text = unlines (strayLine start offset) ++ layout
      ∧ (text = layout ↔ (start = 0 → offset = 0))
      ∧ ∃ above below, unlines above = source.take start
        ∧ splitAtChar '\n' source = above ++ below
        ∧ splitAtChar '\n' text
          = strayLine start offset ++ above ++ ls.map (indent ++ ·) ++ below := by
  intro indent layout text
  have hfront : source.take start ++ indent = source.take offset := by
    have h : (source.take offset).take start = source.take start := by
      rw [List.take_take, Nat.min_eq_left hstart]
    rw [← h, List.take_append_drop]
  have hrest : indent ++ source.drop offset = source.drop start := by
    have h : source.take start ++ (indent ++ source.drop offset)
        = source.take start ++ source.drop start := by
      rw [← List.append_assoc, hfront, List.take_append_drop, List.take_append_drop]
    exact List.append_cancel_left h
  have htext : text = unlines (strayLine start offset) ++ layout := by
    have h := text_splice_block hline hblank (source.drop offset) hls
    rwa [hfront, List.take_append_drop, List.length_take, List.length_take,
      Nat.min_eq_left hoffset, Nat.min_eq_left (Nat.le_trans hstart hoffset), hrest] at h
  refine ⟨htext, ?_, ?_⟩
  · rw [htext, List.append_left_eq_self, strayLine]
    split <;> simp_all [unlines]
  · obtain ⟨above, habove, hlines⟩ := exists_unlines hline
    have hstray : ∀ l ∈ strayLine start offset, '\n' ∉ l := by
      rw [strayLine]
      split <;> simp
    have hblock : ∀ l ∈ ls.map (indent ++ ·), '\n' ∉ l := by
      intro l hl
      obtain ⟨k, hk, rfl⟩ := List.mem_map.mp hl
      rw [List.mem_append]
      rintro (h | h)
      · exact (hblank _ h).2 rfl
      · exact (hls k hk).1 h
    refine ⟨above, splitAtChar '\n' (source.drop start), hlines.symm, ?_, ?_⟩
    · rw [← splitAtChar_unlines habove, ← hlines, List.take_append_drop]
    · rw [htext, splitAtChar_unlines hstray]
      show _ ++ splitAtChar '\n' (source.take start ++ _ ++ _) = _
      rw [hlines, List.append_assoc, splitAtChar_unlines habove, splitAtChar_unlines hblock]
      simp only [List.append_assoc]

/-- Two lines in front of an indented second line. -/
theorem splice_block_lines_indented :
    (splice "f\n  x\n".toList ⟨4, none⟩ "a\nb\n".toList .block).text
      = "f\n  a\n  b\n  x\n".toList := by
  have hall : (("f\n  x\n".toList.take 4).drop 2).all fun c => isBlank c && c != '\n' := by decide
  have hblank : ∀ c ∈ ("f\n  x\n".toList.take 4).drop 2, isBlank c = true ∧ c ≠ '\n' :=
    fun c hc => by simpa using List.all_eq_true.mp hall c hc
  have hls : ∀ l ∈ ["a".toList, "b".toList], '\n' ∉ l ∧ '\r' ∉ l := by decide
  exact (splice_block_lines (by decide) (by decide) (.inr (by decide)) hblank hls).2.1.mpr
    (by decide)

/-- An empty line appears in front of an indented first line. -/
theorem splice_block_lines_first :
    (splice " a".toList ⟨1, none⟩ "b\n".toList .block).text = "\n b\n a".toList := by
  decide +kernel

end Graft
