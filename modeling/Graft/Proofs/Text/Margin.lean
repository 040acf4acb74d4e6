/-
A text without its margin has no margin.

The margin is the longest indentation that the lines have in common, so what is left of
their indentations has nothing in common any more:

* `splitAtChar_join` — lines that are put together are taken apart again;
* `margin_isPrefix` — every line that is not empty starts with the margin;
* `margin_drop` — behind the margin there is none;
* `withoutMargin_withoutMargin` — removing the margin twice is removing it once;
* `exists_withoutMargin` — the first line loses nothing but indentation.
-/
import Graft.Text.Margin

namespace Graft.Text

/-! ### Lines at newlines -/

theorem splitAtChar_eq_splitOn (c : Char) (t : Text) : splitAtChar c t = t.splitOn c := by
  induction t with
  | nil => rfl
  | cons d t ih =>
    rw [splitAtChar, List.splitOn_cons_eq_if_modifyHead, ih]
    by_cases hd : d = c
    · rw [if_pos hd, if_pos (beq_iff_eq.mpr hd)]
    · rw [if_neg hd, if_neg (by simpa using hd)]
      cases ht : t.splitOn c with
      | nil => exact absurd ht (List.splitOn_ne_nil c t)
      | cons piece pieces => rfl

/-- Pieces that are put together are taken apart again. -/
theorem splitAtChar_join {c : Char} {pieces : List Text} (hc : ∀ piece ∈ pieces, c ∉ piece)
    (hne : pieces ≠ []) : splitAtChar c (join [c] pieces) = pieces := by
  rw [splitAtChar_eq_splitOn, join, List.splitOn_intercalate c hc hne]

theorem splitAtChar_ne_nil (c : Char) (t : Text) : splitAtChar c t ≠ [] := by
  rw [splitAtChar_eq_splitOn]
  exact List.splitOn_ne_nil c t

theorem not_mem_of_mem_splitAtChar {c : Char} {t : Text} :
    ∀ piece ∈ splitAtChar c t, c ∉ piece := by
  fun_induction splitAtChar c t with
  | case1 => simp
  | case2 ds ih => simpa using ih
  | case3 d ds hd hnil ih => simpa using Ne.symm hd
  | case4 d ds hd piece pieces heq ih =>
    rw [heq] at ih
    intro p hp
    rcases List.mem_cons.mp hp with rfl | hp
    · have hpiece := ih piece List.mem_cons_self
      simp [hpiece, Ne.symm hd]
    · exact ih p (List.mem_cons_of_mem _ hp)

/-- What stands in front of the first `c` belongs to the first piece. -/
theorem exists_splitAtChar_append {c : Char} {x : Text} (hx : c ∉ x) (t : Text) :
    ∃ piece pieces, splitAtChar c (x ++ t) = (x ++ piece) :: pieces := by
  induction x with
  | nil => exact List.exists_cons_of_ne_nil (splitAtChar_ne_nil c t)
  | cons d x ih =>
    obtain ⟨hd, hx⟩ : c ≠ d ∧ c ∉ x := by simpa using hx
    obtain ⟨piece, pieces, hpieces⟩ := ih hx
    exact ⟨piece, pieces, by rw [List.cons_append, splitAtChar, if_neg hd.symm, hpieces]; rfl⟩

/-! ### What texts start with in common -/

theorem commonStart_isPrefix (a b : Text) : commonStart a b <+: a ∧ commonStart a b <+: b := by
  fun_induction commonStart a b with
  | case1 as c bs ih => exact ⟨(List.prefix_cons_inj c).mpr ih.1, (List.prefix_cons_inj c).mpr ih.2⟩
  | case2 => exact ⟨List.nil_prefix, List.nil_prefix⟩
  | case3 => exact ⟨List.nil_prefix, List.nil_prefix⟩

theorem commonStart_append (w a b : Text) :
    commonStart (w ++ a) (w ++ b) = w ++ commonStart a b := by
  induction w with
  | nil => rfl
  | cons c w ih => rw [List.cons_append, List.cons_append, commonStart, if_pos rfl, ih]; rfl

theorem foldl_commonStart_isPrefix (rest : List Text) : ∀ first : Text,
    rest.foldl commonStart first <+: first ∧ ∀ x ∈ rest, rest.foldl commonStart first <+: x := by
  induction rest with
  | nil => simp
  | cons y rest ih =>
    intro first
    obtain ⟨hstart, hrest⟩ := ih (commonStart first y)
    refine ⟨hstart.trans (commonStart_isPrefix first y).1, fun x hx => ?_⟩
    rcases List.mem_cons.mp hx with rfl | hx
    · exact hstart.trans (commonStart_isPrefix first x).2
    · exact hrest x hx

theorem foldl_commonStart_append (w : Text) (rest : List Text) : ∀ first : Text,
    (rest.map (w ++ ·)).foldl commonStart (w ++ first) = w ++ rest.foldl commonStart first := by
  induction rest with
  | nil =>
    intro first
    rfl
  | cons y rest ih =>
    intro first
    rw [List.map_cons, List.foldl_cons, commonStart_append, ih, List.foldl_cons]

/-! ### The margin of lines -/

theorem margin_eq {ls : List Text} {first : Text} {rest : List Text}
    (h : (ls.filter (!·.isEmpty)).map indentation = first :: rest) :
    margin ls = rest.foldl commonStart first := by rw [margin, h]

/-- Every line that is not empty starts with the margin. -/
theorem margin_isPrefix {ls : List Text} {l : Text} (hl : l ∈ ls) (hne : l ≠ []) :
    margin ls <+: indentation l := by
  have hmem : indentation l ∈ (ls.filter (!·.isEmpty)).map indentation :=
    List.mem_map_of_mem (List.mem_filter.mpr ⟨hl, by simpa using hne⟩)
  cases hls : (ls.filter (!·.isEmpty)).map indentation with
  | nil => simp [hls] at hmem
  | cons first rest =>
    rw [hls] at hmem
    rw [margin_eq hls]
    obtain ⟨hfirst, hrest⟩ := foldl_commonStart_isPrefix rest first
    rcases List.mem_cons.mp hmem with heq | hmem
    · exact heq ▸ hfirst
    · exact hrest _ hmem

theorem isIndentChar_of_mem_indentation {l : Text} : ∀ c ∈ indentation l, isIndentChar c = true :=
  fun _ hc => List.all_eq_true.mp List.all_takeWhile _ hc

/-- The line has more than indentation, or nothing. -/
def IsTidy (l : Text) : Prop := l ≠ [] → ∃ c ∈ l, isIndentChar c = false

theorem emptyIfBlank_eq {l : Text} (h : IsTidy l) : emptyIfBlank l = l := by
  by_cases hne : l = []
  · rw [hne]
    rfl
  · obtain ⟨c, hc, hindent⟩ := h hne
    rw [emptyIfBlank, if_neg]
    intro hall
    rw [List.all_eq_true.mp hall c hc] at hindent
    exact absurd hindent (by decide)

theorem isTidy_emptyIfBlank (l : Text) : IsTidy (emptyIfBlank l) := by
  rw [emptyIfBlank]
  split
  · exact fun hne => absurd rfl hne
  · rename_i hall
    intro _
    simpa using hall

/-- A tidy line that is not empty is the margin, and a tidy line behind it. -/
theorem exists_behind_margin {ls : List Text} {l : Text} (hl : l ∈ ls) (hne : l ≠ [])
    (htidy : IsTidy l) :
    ∃ rest, l = margin ls ++ rest ∧ rest ≠ [] ∧ IsTidy rest := by
  have hmargin := margin_isPrefix hl hne
  obtain ⟨rest, hrest⟩ := hmargin.trans (List.takeWhile_prefix isIndentChar)
  obtain ⟨c, hc, hindent⟩ := htidy hne
  -- the character that is no indentation stands behind the margin
  have hmem : c ∈ rest := by
    rw [← hrest] at hc
    rcases List.mem_append.mp hc with hc | hc
    · rw [isIndentChar_of_mem_indentation c (hmargin.subset hc)] at hindent
      exact absurd hindent (by decide)
    · exact hc
  exact ⟨rest, hrest.symm, List.ne_nil_of_mem hmem, fun _ => ⟨c, hmem, hindent⟩⟩

theorem isTidy_drop_margin {ls : List Text} {l : Text} (hl : l ∈ ls) (htidy : IsTidy l) :
    IsTidy (l.drop (margin ls).length) := by
  by_cases hne : l = []
  · rw [hne, List.drop_nil]
    exact fun h => absurd rfl h
  · obtain ⟨rest, hrest, -, hrest'⟩ := exists_behind_margin hl hne htidy
    rwa [hrest, List.drop_left]

theorem indentation_append {w : Text} (hw : ∀ c ∈ w, isIndentChar c = true) (rest : Text) :
    indentation (w ++ rest) = w ++ indentation rest :=
  List.takeWhile_append_of_pos hw

/-- The indentations are the margin and what is left of them behind it. -/
theorem map_indentation_eq {ls : List Text} (htidy : ∀ l ∈ ls, IsTidy l) :
    (ls.filter (!·.isEmpty)).map indentation
      = (((ls.map (·.drop (margin ls).length)).filter (!·.isEmpty)).map indentation).map
        (margin ls ++ ·) := by
  have hfilter : ls.filter ((!·.isEmpty) ∘ (·.drop (margin ls).length))
      = ls.filter (!·.isEmpty) := by
    refine List.filter_congr fun l hl => ?_
    by_cases hne : l = []
    · simp [hne]
    · obtain ⟨rest, hrest, hrest', -⟩ := exists_behind_margin hl hne (htidy l hl)
      have hdrop : l.drop (margin ls).length = rest := by rw [hrest, List.drop_left]
      simp only [Function.comp_apply, hdrop, List.isEmpty_eq_false_iff.mpr hrest',
        List.isEmpty_eq_false_iff.mpr hne]
  rw [List.filter_map, hfilter, List.map_map, List.map_map]
  refine List.map_congr_left fun l hl => ?_
  obtain ⟨hl, hne⟩ : l ∈ ls ∧ l ≠ [] := by simpa using hl
  have hmargin := margin_isPrefix hl hne
  obtain ⟨rest, hrest, -, -⟩ := exists_behind_margin hl hne (htidy l hl)
  have hdrop : l.drop (margin ls).length = rest := by rw [hrest, List.drop_left]
  have hindent : ∀ c ∈ margin ls, isIndentChar c = true :=
    fun c hc => isIndentChar_of_mem_indentation c (hmargin.subset hc)
  show indentation l = margin ls ++ indentation (l.drop (margin ls).length)
  rw [hdrop, ← indentation_append hindent, ← hrest]

/-- Behind the margin the lines have nothing in common any more. -/
theorem margin_drop {ls : List Text} (htidy : ∀ l ∈ ls, IsTidy l) :
    margin (ls.map (·.drop (margin ls).length)) = [] := by
  have hmap := map_indentation_eq htidy
  -- the margin is longest: one that is left would have belonged to it
  cases hleft : ((ls.map (·.drop (margin ls).length)).filter (!·.isEmpty)).map indentation with
  | nil => rw [margin, hleft]
  | cons first rest =>
    rw [hleft, List.map_cons] at hmap
    have hself : margin ls = margin ls ++ rest.foldl commonStart first := by
      rw [← foldl_commonStart_append]
      exact margin_eq hmap
    rw [margin_eq hleft]
    simpa using hself

/-! ### Removing the margin -/

/-- The lines of a text, those of indentation only being empty. -/
def tidyLines (t : Text) : List Text := (splitAtChar '\n' t).map emptyIfBlank

theorem withoutMargin_eq (t : Text) : withoutMargin t
    = join ['\n'] ((tidyLines t).map (·.drop (margin (tidyLines t)).length)) := rfl

theorem isTidy_of_mem_tidyLines {t l : Text} (h : l ∈ tidyLines t) : IsTidy l := by
  obtain ⟨line, -, rfl⟩ := List.mem_map.mp h
  exact isTidy_emptyIfBlank line

theorem newline_not_mem_tidyLines {t l : Text} (h : l ∈ tidyLines t) : '\n' ∉ l := by
  obtain ⟨line, hline, rfl⟩ := List.mem_map.mp h
  rw [emptyIfBlank]
  split
  · simp
  · exact not_mem_of_mem_splitAtChar line hline

/-- The lines of a text without its margin are its lines without their margin. -/
theorem tidyLines_withoutMargin (t : Text) : tidyLines (withoutMargin t)
    = (tidyLines t).map (·.drop (margin (tidyLines t)).length) := by
  have hnewline : ∀ l ∈ (tidyLines t).map (·.drop (margin (tidyLines t)).length), '\n' ∉ l := by
    intro l hl
    obtain ⟨line, hline, rfl⟩ := List.mem_map.mp hl
    exact fun h => newline_not_mem_tidyLines hline (List.mem_of_mem_drop h)
  have hne : (tidyLines t).map (·.drop (margin (tidyLines t)).length) ≠ [] := by
    simpa [tidyLines] using splitAtChar_ne_nil '\n' t
  have hsplit := splitAtChar_join hnewline hne
  rw [← withoutMargin_eq] at hsplit
  rw [tidyLines, hsplit, List.map_map]
  refine List.map_congr_left fun line hline => ?_
  exact emptyIfBlank_eq (isTidy_drop_margin hline (isTidy_of_mem_tidyLines hline))

/-- A text without its margin has none. -/
theorem withoutMargin_withoutMargin (t : Text) :
    withoutMargin (withoutMargin t) = withoutMargin t := by
  have hmargin := margin_drop fun l (hl : l ∈ tidyLines t) => isTidy_of_mem_tidyLines hl
  rw [withoutMargin_eq (withoutMargin t), tidyLines_withoutMargin, hmargin, List.length_nil,
    withoutMargin_eq t, List.map_map]
  rfl

/-- The first line of a text loses nothing but indentation. -/
theorem exists_withoutMargin {w : Text} {c : Char} (hw : '\n' ∉ w) (hc : c ≠ '\n')
    (hindent : isIndentChar c = false) (rest : Text) :
    ∃ n rest', withoutMargin (w ++ c :: rest) = w.drop n ++ c :: rest' := by
  obtain ⟨l, others, hsplit⟩ := exists_splitAtChar_append (x := w ++ [c]) (c := '\n')
    (by simp [hw, hc.symm]) rest
  have htidy : IsTidy (w ++ c :: l) := fun _ => ⟨c, by simp, hindent⟩
  have hlines : tidyLines (w ++ c :: rest) = (w ++ c :: l) :: others.map emptyIfBlank := by
    have hfirst : w ++ [c] ++ l = w ++ c :: l := by simp
    rw [List.append_assoc, List.singleton_append, hfirst] at hsplit
    rw [tidyLines, hsplit, List.map_cons, emptyIfBlank_eq htidy]
  -- the margin ends in front of the first character that is no indentation
  have hle : (margin (tidyLines (w ++ c :: rest))).length ≤ w.length := by
    have hmargin : margin (tidyLines (w ++ c :: rest)) <+: indentation (w ++ c :: l) :=
      margin_isPrefix (by simp [hlines]) (by simp)
    refine Nat.le_trans hmargin.length_le ?_
    rw [indentation, List.takeWhile_append]
    split
    · simp [hindent]
    · exact (List.takeWhile_prefix _).length_le
  refine ⟨(margin (tidyLines (w ++ c :: rest))).length, ?_⟩
  rw [withoutMargin_eq]
  generalize (margin (tidyLines (w ++ c :: rest))).length = n at hle
  rw [hlines, List.map_cons, List.drop_append_of_le_length hle, join]
  cases (others.map emptyIfBlank).map (·.drop n) with
  | nil => exact ⟨l, by simp⟩
  | cons next more => exact ⟨l ++ '\n' :: ['\n'].intercalate (next :: more), by simp⟩

end Graft.Text
