/-
A splice conserves the text.

Whatever the offsets are, a spliced text is what is kept in front of the insertion, the
patch, and the source from the end of the deletion on.  Only blanks are lost and added: a
placeholder or a line end in front of the patch, the blanks around it, and the line ends
and the indentation of its lines.

* `Text.solid` — the characters of a text that are not blank;
* `Splice.IsIndent` — the indentation of the line that a text ends with;
* `Splice.exists_head_eq`, `Splice.solid_body` — what stands in front of the patch, and what
  becomes of the patch;
* `splice_conserves` — the three parts of a spliced text, and where they lie.
-/
import Graft.Proofs.Splice.Words

namespace Graft

namespace Text

/-- The characters that are not blank. -/
def solid (t : Text) : Text := t.filter fun c => !isBlank c

theorem solid_append (a b : Text) : solid (a ++ b) = solid a ++ solid b := List.filter_append ..

theorem solid_cons_blank {c : Char} (hc : isBlank c = true) (t : Text) :
    solid (c :: t) = solid t :=
  List.filter_cons_of_neg (by simp [hc])

theorem solid_blanks {t : Text} (h : ∀ c ∈ t, isBlank c = true) : solid t = [] := by
  rw [solid, List.filter_eq_nil_iff]
  intro c hc
  simp [h c hc]

theorem solid_trimLeft (t : Text) : solid (trimLeft t) = solid t := by
  have hsplit : t.takeWhile isBlank ++ trimLeft t = t := List.takeWhile_append_dropWhile
  have hblank : solid (t.takeWhile isBlank) = [] := solid_blanks Lexeme.forall_mem_takeWhile
  calc solid (trimLeft t)
      = solid (t.takeWhile isBlank) ++ solid (trimLeft t) := by rw [hblank, List.nil_append]
    _ = solid (t.takeWhile isBlank ++ trimLeft t) := (solid_append _ _).symm
    _ = solid t := by rw [hsplit]

theorem solid_reverse (t : Text) : solid t.reverse = (solid t).reverse := List.filter_reverse ..

theorem solid_trimRight (t : Text) : solid (trimRight t) = solid t := by
  have h := solid_trimLeft t.reverse
  rw [trimRight, solid_reverse]
  rw [trimLeft] at h
  rw [h, solid_reverse, List.reverse_reverse]

theorem solid_trim (t : Text) : solid (trim t) = solid t := by
  rw [trim, solid_trimRight, solid_trimLeft]

/-- Reindenting changes line ends and indentations. -/
theorem solid_reindent {indent : Text} (hindent : ∀ c ∈ indent, isBlank c = true) (t : Text) :
    solid (reindent indent t) = solid t := by
  have hbreak : ∀ cs, solid ('\n' :: (indent ++ cs)) = solid cs := by
    intro cs
    rw [solid_cons_blank (by decide), solid_append, solid_blanks hindent, List.nil_append]
  fun_induction reindent indent t with
  | case1 => rfl
  | case2 cs ih =>
    rw [hbreak, ih, solid_cons_blank (by decide), solid_cons_blank (by decide)]
  | case3 cs _ ih => rw [hbreak, ih, solid_cons_blank (by decide)]
  | case4 c cs _ _ ih =>
    show solid ([c] ++ reindent indent cs) = solid ([c] ++ cs)
    rw [solid_append, solid_append, ih]

end Text

namespace Splice

open Text (solid)

/-- Where the text goes on behind the patch: at the end of the deletion, if that lies behind
the insertion. -/
def tail (found : Match) : Int :=
  match found.deletion with
  | none => found.insertion
  | some stop => if found.insertion < stop then stop else found.insertion

/-- The text ends with a line that starts with this indentation and goes on without a
blank. -/
def IsIndent (before indent : Text) : Prop :=
  ∃ front rest, before = front ++ (indent ++ rest) ∧ Text.EndsLine front
    ∧ '\n' ∉ indent ++ rest ∧ (∀ c ∈ indent, Text.isBlank c = true)
    ∧ Lexeme.StopsAt Text.isBlank rest

theorem resume_eq_tail (found : Match) : resume found = tail found := by
  rw [tail]
  cases hstop : found.deletion with
  | none => exact resume_of_le (by simp [hstop])
  | some stop =>
    dsimp only
    split
    · rename_i hlt
      exact resume_of_lt hstop hlt
    · rename_i hle
      refine resume_of_le fun other hother => ?_
      rw [hstop, Option.some.injEq] at hother
      omega

theorem isIndent_indent (before : Text) : IsIndent before (indent before) := by
  have hline : indent before ++ (Text.lastLine before).dropWhile Text.isBlank
      = Text.lastLine before := List.takeWhile_append_dropWhile
  refine ⟨Text.withoutLastLine before, (Text.lastLine before).dropWhile Text.isBlank, ?_, ?_, ?_,
    fun c => isBlank_of_mem_indent, Lexeme.stopsAt_dropWhile⟩
  · rw [hline, Text.withoutLastLine_append_lastLine]
  · exact Text.endsLine_withoutLastLine before
  · rw [hline]
    exact Text.newline_not_mem_lastLine before

/-! ### In front of the patch -/

/-- What goes of the last line is blank. -/
theorem exists_kept_append (before : Text) :
    ∃ cut, before = kept before ++ cut ∧ ∀ c ∈ cut, Text.isBlank c = true := by
  rw [kept]
  split
  · rename_i hblank
    exact ⟨Text.lastLine before, (Text.withoutLastLine_append_lastLine before).symm,
      Text.isAllBlank_iff.mp hblank⟩
  · exact ⟨[], by simp, by simp⟩

theorem dropLast_append_newline {t : Text} (h : Text.endsWithNewline t = true) :
    t.dropLast ++ ['\n'] = t := by
  have hlast : t.getLast? = some '\n' := by simpa [Text.endsWithNewline] using h
  obtain ⟨front, rfl⟩ := List.getLast?_eq_some_iff.mp hlast
  rw [List.dropLast_concat]

/-- In front of the patch stands what was in front of the insertion, without blanks at its
end, and possibly a newline. -/
theorem exists_head_eq (style : Style) (offset : Int) (before : Text) :
    ∃ front cut, before = front ++ cut ∧ (∀ c ∈ cut, Text.isBlank c = true)
      ∧ (head style offset before = front ∨ head style offset before = front ++ ['\n']) := by
  obtain ⟨cut, hkept, hcut⟩ := exists_kept_append before
  cases style with
  | inline =>
    show ∃ front cut, _ ∧ _ ∧ (inlineHead before = front ∨ inlineHead before = front ++ ['\n'])
    rw [inlineHead]
    split
    · -- the newline goes as well
      rename_i hnewline
      refine ⟨(kept before).dropLast, '\n' :: cut, ?_, ?_, .inl rfl⟩
      · rw [← List.singleton_append, ← List.append_assoc, dropLast_append_newline hnewline]
        exact hkept
      · intro c hc
        rcases List.mem_cons.mp hc with rfl | hc
        · decide
        · exact hcut c hc
    · exact ⟨kept before, cut, hkept, hcut, .inl rfl⟩
  | block =>
    show ∃ front cut, _ ∧ _
      ∧ (blockHead offset before = front ∨ blockHead offset before = front ++ ['\n'])
    rw [blockHead]
    split
    · exact ⟨kept before, cut, hkept, hcut, .inr rfl⟩
    · exact ⟨kept before, cut, hkept, hcut, .inl rfl⟩

theorem solid_head (style : Style) (offset : Int) (before : Text) :
    solid (head style offset before) = solid before := by
  obtain ⟨front, cut, hbefore, hcut, hhead⟩ := exists_head_eq style offset before
  have hfront : solid before = solid front := by
    rw [hbefore, Text.solid_append, Text.solid_blanks hcut, List.append_nil]
  rcases hhead with hhead | hhead
  · rw [hhead, hfront]
  · have hnewline : solid ['\n'] = [] := rfl
    rw [hhead, hfront, Text.solid_append, hnewline, List.append_nil]

/-! ### The patch -/

theorem solid_body (style : Style) (before patch : Text) :
    solid (body style before patch) = solid patch := by
  have hindent : ∀ c ∈ indent before, Text.isBlank c = true := fun c => isBlank_of_mem_indent
  cases style with
  | inline => exact Text.solid_trim patch
  | block =>
    show solid (indented (indent before) patch) = solid patch
    rw [Text.indented_eq, Text.solid_append, Text.solid_blanks hindent, List.nil_append,
      Text.solid_reindent hindent]

end Splice

/-- **A splice conserves the text.**  For all offsets, but for blanks the spliced text is the
source up to the insertion, the patch, and the source from the tail on.  The location that
it reports holds the patch, trimmed or with its lines indented like the line of the
insertion; the tail follows; and in front of it only blanks at the end are missing, and at
most a newline is added. -/
theorem splice_conserves (source patch : Text) (found : Match) (style : Style) :
    let before := source.upTo found.insertion
    let behind := source.startingAt (Splice.tail found)
    let result := splice source found patch style
    Text.solid result.text = Text.solid (before ++ patch ++ behind)
      ∧ (match style with
        | .inline =>
          result.text.between result.inserted.offset result.inserted.endOffset = Text.trim patch
        | .block => ∃ indent, Splice.IsIndent before indent
          ∧ result.text.between result.inserted.offset result.inserted.endOffset
            = Text.join ['\n'] ((Text.lines patch).map (indent ++ ·)))
      ∧ result.text.startingAt result.inserted.endOffset = behind
      ∧ ∃ front cut, before = front ++ cut ∧ (∀ c ∈ cut, Text.isBlank c = true)
        ∧ (result.text.upTo result.inserted.offset = front
          ∨ result.text.upTo result.inserted.offset = front ++ ['\n']) := by
  intro before behind result
  generalize hhead : Splice.head style found.insertion before = head
  generalize hbody : Splice.body style before patch = body
  have htext : result.text = head ++ body ++ behind := by
    show _ = head ++ body ++ source.startingAt (Splice.tail found)
    rw [← hhead, ← hbody, ← Splice.resume_eq_tail]
    rfl
  have hoffset : result.inserted.offset = head.length := by
    rw [← hhead]
    rfl
  have hend : result.inserted.endOffset = head.length + body.length := by
    rw [← hhead, ← hbody]
    rfl
  have hinserted : result.text.between result.inserted.offset result.inserted.endOffset = body := by
    rw [htext, hoffset, hend, Text.between_append]
  refine ⟨?_, ?_, ?_, ?_⟩
  · rw [htext, Text.solid_append, Text.solid_append, ← hhead, ← hbody, Splice.solid_head,
      Splice.solid_body, Text.solid_append, Text.solid_append]
  · rw [hinserted, ← hbody]
    cases style with
    | inline => rfl
    | block => exact ⟨Splice.indent before, Splice.isIndent_indent before, rfl⟩
  · have hlength : (head.length + body.length : Int) = ((head ++ body).length : Nat) := by simp
    rw [htext, hend, hlength, Text.startingAt_natCast, List.drop_left]
  · obtain ⟨front, cut, hbefore, hcut, hfront⟩ :=
      Splice.exists_head_eq style found.insertion before
    refine ⟨front, cut, hbefore, hcut, ?_⟩
    rwa [htext, hoffset, Text.upTo_natCast, List.append_assoc, List.take_left, ← hhead]

-- an offset from the end, a deletion that stops before the insertion, an indented block
example : (splice "a \x7b\n\u3000b \x7d".toList ⟨-3, some (-9)⟩ "c\r\nd".toList .block).text
    = "a \x7b\n\u3000c\n\u3000db \x7d".toList := by decide

end Graft
