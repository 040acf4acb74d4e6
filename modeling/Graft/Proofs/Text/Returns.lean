/-
Carriage returns in front of newlines.

A text of lines that end with newlines becomes one of lines that end with a carriage return
and a newline (`crlf`).  Physical lines do not mind.  The margin does: to it a carriage
return is a character like others, so that a line of indentation only is no longer empty.
It counts for the margin, and what it has behind the margin stays.

* `physicalLines_crlf`, `splitAtChar_crlf` — the lines of the converted text;
* `isPrefix_margin` — the margin is the longest start that the indentations share;
* `withoutMargin_crlf` — the margin goes from both texts alike if and only if the lines of
  indentation only are the margin.
-/
import Graft.Proofs.Text.Margin
import Graft.Proofs.Text.PhysicalLines

namespace Graft.Text

/-- The text with a carriage return in front of every newline. -/
def crlf (t : Text) : Text := t.flatMap fun c => if c = '\n' then ['\r', '\n'] else [c]

@[simp] theorem crlf_nil : crlf [] = [] := rfl

theorem crlf_newline (t : Text) : crlf ('\n' :: t) = '\r' :: '\n' :: crlf t := rfl

theorem crlf_cons {c : Char} (hc : c ≠ '\n') (t : Text) : crlf (c :: t) = c :: crlf t := by
  simp [crlf, hc]

@[simp] theorem crlf_append (a b : Text) : crlf (a ++ b) = crlf a ++ crlf b :=
  List.flatMap_append

/-- A text without a newline stays as it is. -/
theorem crlf_eq_self {t : Text} (h : '\n' ∉ t) : crlf t = t := by
  induction t with
  | nil => rfl
  | cons c t ih =>
    obtain ⟨hc, ht⟩ : '\n' ≠ c ∧ '\n' ∉ t := by simpa using h
    rw [crlf_cons hc.symm, ih ht]

theorem crlf_flatten (ls : List Text) : crlf ls.flatten = (ls.map crlf).flatten := by
  induction ls with
  | nil => rfl
  | cons l ls ih => rw [List.flatten_cons, crlf_append, ih]; rfl

@[simp] theorem isAllBlank_crlf (t : Text) : isAllBlank (crlf t) = isAllBlank t := by
  induction t with
  | nil => rfl
  | cons c t ih =>
    simp only [isAllBlank] at ih ⊢
    by_cases hc : c = '\n'
    · rw [hc, crlf_newline, List.all_cons, List.all_cons, List.all_cons, ih]
      rfl
    · rw [crlf_cons hc, List.all_cons, List.all_cons, ih]

/-! ### Lines -/

/-- The physical lines are converted one by one. -/
theorem physicalLines_crlf {t : Text} (h : '\r' ∉ t) :
    physicalLines (crlf t) = (physicalLines t).map crlf := by
  induction t with
  | nil => rfl
  | cons c t ih =>
    obtain ⟨hc, ht⟩ : '\r' ≠ c ∧ '\r' ∉ t := by simpa using h
    by_cases hnewline : c = '\n'
    · rw [hnewline, crlf_newline, physicalLines_return, physicalLines_break rfl (by simp), ih ht]
      rfl
    have hseam : ∀ cs : Text, ¬ (c = '\r' ∧ cs.head? = some '\n') := fun cs h => hc h.1.symm
    cases hbreak : isLineBreak c with
    | true =>
      rw [crlf_cons hnewline, physicalLines_break hbreak (hseam _),
        physicalLines_break hbreak (hseam _), ih ht, List.map_cons, crlf_cons hnewline]
      rfl
    | false =>
      rw [crlf_cons hnewline, physicalLines_cons hbreak, physicalLines_cons hbreak, ih ht,
        List.map_cons, crlf_cons hnewline]
      cases physicalLines t <;> rfl

/-- Each line that a newline ends has a carriage return at its end. -/
theorem splitAtChar_crlf (t : Text) : ∃ ls last, splitAtChar '\n' t = ls ++ [last]
    ∧ splitAtChar '\n' (crlf t) = ls.map (· ++ ['\r']) ++ [last] := by
  induction t with
  | nil => exact ⟨[], [], rfl, rfl⟩
  | cons c t ih =>
    obtain ⟨ls, last, hlines, hcrlf⟩ := ih
    by_cases hc : c = '\n'
    · refine ⟨[] :: ls, last, ?_, ?_⟩
      · rw [splitAtChar, if_pos hc, hlines]
        rfl
      · rw [hc, crlf_newline, splitAtChar, if_neg (by decide), splitAtChar, if_pos rfl, hcrlf]
        rfl
    · rw [crlf_cons hc, splitAtChar, if_neg hc, splitAtChar, if_neg hc, hlines, hcrlf]
      cases ls with
      | nil => exact ⟨[], c :: last, rfl, rfl⟩
      | cons l ls => exact ⟨(c :: l) :: ls, last, rfl, rfl⟩

/-- Lines that are put together are converted one by one. -/
theorem crlf_join {ls : List Text} {last : Text} (hls : ∀ l ∈ ls, '\n' ∉ l) (hlast : '\n' ∉ last) :
    crlf (join ['\n'] (ls ++ [last])) = join ['\n'] (ls.map (· ++ ['\r']) ++ [last]) := by
  induction ls with
  | nil =>
    show crlf (join ['\n'] [last]) = join ['\n'] [last]
    rw [join, List.intercalate_singleton, crlf_eq_self hlast]
  | cons l ls ih =>
    rw [List.cons_append, join_cons (by simp), crlf_append, crlf_newline,
      crlf_eq_self (hls l (by simp)), ih fun l hl => hls l (by simp [hl]), List.map_cons,
      List.cons_append, join_cons (by simp)]
    simp

theorem join_inj {ls ls' : List Text} (hls : ∀ l ∈ ls, '\n' ∉ l) (hls' : ∀ l ∈ ls', '\n' ∉ l)
    (hne : ls ≠ []) (hne' : ls' ≠ []) : join ['\n'] ls = join ['\n'] ls' ↔ ls = ls' := by
  refine ⟨fun h => ?_, congrArg _⟩
  rw [← splitAtChar_join hls hne, h, splitAtChar_join hls' hne']

/-- Joined lines with carriage returns are the conversion of joined lines exactly if the lines
are the same. -/
theorem join_return_eq_crlf_iff {ls ls' : List Text} {last last' : Text}
    (hls : ∀ l ∈ ls, '\n' ∉ l) (hlast : '\n' ∉ last) (hls' : ∀ l ∈ ls', '\n' ∉ l)
    (hlast' : '\n' ∉ last') :
    join ['\n'] (ls.map (· ++ ['\r']) ++ [last]) = crlf (join ['\n'] (ls' ++ [last']))
      ↔ ls = ls' ∧ last = last' := by
  have hreturn : ∀ {ls : List Text} {last : Text}, (∀ l ∈ ls, '\n' ∉ l) → '\n' ∉ last →
      ∀ l ∈ ls.map (· ++ ['\r']) ++ [last], '\n' ∉ l := by
    intro ls last hls hlast l hl
    rcases List.mem_append.mp hl with hl | hl
    · obtain ⟨k, hk, rfl⟩ := List.mem_map.mp hl
      simpa using hls k hk
    · exact List.mem_singleton.mp hl ▸ hlast
  rw [crlf_join hls' hlast', join_inj (hreturn hls hlast) (hreturn hls' hlast') (by simp) (by simp)]
  constructor
  · intro h
    obtain ⟨hmap, htail⟩ := List.append_inj' h rfl
    refine ⟨?_, List.singleton_inj.mp htail⟩
    exact (List.map_inj_right fun _ _ => List.append_cancel_right).mp hmap
  · rintro ⟨rfl, rfl⟩
    rfl

/-! ### The margin as the longest shared start -/

theorem isPrefix_commonStart {w a b : Text} (ha : w <+: a) (hb : w <+: b) :
    w <+: commonStart a b := by
  obtain ⟨a, rfl⟩ := ha
  obtain ⟨b, rfl⟩ := hb
  rw [commonStart_append]
  exact List.prefix_append _ _

theorem isPrefix_foldl_commonStart {w : Text} (rest : List Text) : ∀ first : Text, w <+: first →
    (∀ x ∈ rest, w <+: x) → w <+: rest.foldl commonStart first := by
  induction rest with
  | nil => exact fun _ hfirst _ => hfirst
  | cons y rest ih =>
    intro first hfirst hrest
    exact ih _ (isPrefix_commonStart hfirst (hrest y (by simp)))
      fun x hx => hrest x (by simp [hx])

/-- What all indentations start with belongs to the margin, if there is a line at all. -/
theorem isPrefix_margin {ls : List Text} {w line : Text} (hline : line ∈ ls) (hne : line ≠ [])
    (h : ∀ l ∈ ls, l ≠ [] → w <+: indentation l) : w <+: margin ls := by
  have hmem : ∀ x ∈ (ls.filter (!·.isEmpty)).map indentation, w <+: x := by
    intro x hx
    obtain ⟨l, hl, rfl⟩ := List.mem_map.mp hx
    obtain ⟨hl, hne⟩ : l ∈ ls ∧ l ≠ [] := by simpa using hl
    exact h l hl hne
  cases hls : (ls.filter (!·.isEmpty)).map indentation with
  | nil =>
    have hline : line ∈ ls.filter (!·.isEmpty) := List.mem_filter.mpr ⟨hline, by simpa using hne⟩
    rw [List.map_eq_nil_iff.mp hls] at hline
    exact absurd hline List.not_mem_nil
  | cons first rest =>
    rw [hls] at hmem
    rw [margin_eq hls]
    exact isPrefix_foldl_commonStart rest first (hmem first (by simp))
      fun x hx => hmem x (by simp [hx])

/-! ### Lines of indentation, and of more than that -/

theorem emptyIfBlank_of_solid {l : Text} (h : l.all isIndentChar = false) : emptyIfBlank l = l := by
  rw [emptyIfBlank, h]
  rfl

theorem ne_nil_of_solid {l : Text} (h : l.all isIndentChar = false) : l ≠ [] := by
  rintro rfl
  exact absurd h (by decide)

theorem solid_of_emptyIfBlank {l : Text} (h : emptyIfBlank l ≠ []) :
    l.all isIndentChar = false := by
  rw [emptyIfBlank] at h
  split at h
  · exact absurd rfl h
  · rename_i hall
    exact Bool.eq_false_iff.mpr hall

theorem indentation_of_all {l : Text} (h : l.all isIndentChar = true) : indentation l = l := by
  have hself := indentation_append (List.all_eq_true.mp h) []
  rwa [List.append_nil, show indentation [] = [] from rfl, List.append_nil] at hself

theorem emptyIfBlank_return (l : Text) : emptyIfBlank (l ++ ['\r']) = l ++ ['\r'] :=
  emptyIfBlank_eq fun _ => ⟨'\r', by simp, by decide⟩

theorem indentation_return (l : Text) : indentation (l ++ ['\r']) = indentation l := by
  rw [indentation, List.takeWhile_append]
  split
  · rename_i hall
    rw [List.takeWhile_cons_of_neg (by decide), List.append_nil]
    exact ((List.takeWhile_prefix isIndentChar).eq_of_length hall).symm
  · rfl

/-! ### Removing the margin of a converted text -/

/-- Of the lines of a text those of indentation only that a newline ends are the margin. -/
def BlanksAtMargin (t : Text) : Prop :=
  ∀ l ∈ (splitAtChar '\n' t).dropLast, l.all isIndentChar = true → l = margin (tidyLines t)

instance (t : Text) : Decidable (BlanksAtMargin t) :=
  inferInstanceAs (Decidable (∀ l ∈ (splitAtChar '\n' t).dropLast,
    l.all isIndentChar = true → l = margin (tidyLines t)))

section Lines

variable {t : Text} {ls : List Text} {last : Text} (hlines : splitAtChar '\n' t = ls ++ [last])
  (hcrlf : splitAtChar '\n' (crlf t) = ls.map (· ++ ['\r']) ++ [last])

include hlines in
theorem tidyLines_eq : tidyLines t = ls.map emptyIfBlank ++ [emptyIfBlank last] := by
  rw [tidyLines, hlines, List.map_append]
  rfl

include hcrlf in
theorem tidyLines_crlf : tidyLines (crlf t) = ls.map (· ++ ['\r']) ++ [emptyIfBlank last] := by
  rw [tidyLines, hcrlf, List.map_append, List.map_map]
  congr 1
  exact List.map_congr_left fun l _ => emptyIfBlank_return l

include hcrlf in
/-- Every line that a newline ends starts with the margin of the converted text. -/
theorem margin_crlf_isPrefix {l : Text} (hl : l ∈ ls) :
    margin (tidyLines (crlf t)) <+: indentation l := by
  rw [← indentation_return]
  refine margin_isPrefix ?_ (by simp)
  rw [tidyLines_crlf hcrlf]
  exact List.mem_append_left _ (List.mem_map_of_mem hl)

include hlines in
theorem newline_not_mem_drop {l : Text} (hl : l ∈ ls ++ [last]) (n : Nat) :
    '\n' ∉ l.drop n ∧ '\n' ∉ (emptyIfBlank l).drop n := by
  have hl : '\n' ∉ l := not_mem_of_mem_splitAtChar l (hlines ▸ hl)
  refine ⟨fun hmem => hl (List.mem_of_mem_drop hmem), fun hmem => ?_⟩
  rw [emptyIfBlank] at hmem
  split at hmem
  · simp at hmem
  · exact hl (List.mem_of_mem_drop hmem)

include hlines hcrlf in
/-- The margin goes from both texts alike if it goes so from each line. -/
theorem withoutMargin_crlf_iff : withoutMargin (crlf t) = crlf (withoutMargin t)
    ↔ (∀ l ∈ ls, l.drop (margin (tidyLines (crlf t))).length
        = (emptyIfBlank l).drop (margin (tidyLines t)).length)
      ∧ (emptyIfBlank last).drop (margin (tidyLines (crlf t))).length
        = (emptyIfBlank last).drop (margin (tidyLines t)).length := by
  have hfits : ∀ l ∈ ls, (margin (tidyLines (crlf t))).length ≤ l.length := fun l hl =>
    ((margin_crlf_isPrefix hcrlf hl).trans (List.takeWhile_prefix _)).length_le
  rw [withoutMargin_eq, withoutMargin_eq t]
  generalize (margin (tidyLines (crlf t))).length = n' at hfits
  generalize (margin (tidyLines t)).length = n
  have hleft : (tidyLines (crlf t)).map (·.drop n')
      = (ls.map (·.drop n')).map (· ++ ['\r']) ++ [(emptyIfBlank last).drop n'] := by
    rw [tidyLines_crlf hcrlf, List.map_append, List.map_map, List.map_map]
    congr 1
    exact List.map_congr_left fun l hl => List.drop_append_of_le_length (hfits l hl)
  have hright : (tidyLines t).map (·.drop n)
      = ls.map (fun l => (emptyIfBlank l).drop n) ++ [(emptyIfBlank last).drop n] := by
    rw [tidyLines_eq hlines, List.map_append, List.map_map]
    rfl
  rw [hleft, hright, join_return_eq_crlf_iff, List.map_inj_left]
  · intro l hl
    obtain ⟨k, hk, rfl⟩ := List.mem_map.mp hl
    exact (newline_not_mem_drop hlines (by simp [hk]) n').1
  · exact (newline_not_mem_drop hlines (by simp) n').2
  · intro l hl
    obtain ⟨k, hk, rfl⟩ := List.mem_map.mp hl
    exact (newline_not_mem_drop hlines (by simp [hk]) n).2
  · exact (newline_not_mem_drop hlines (by simp) n).2

include hlines hcrlf in
/-- A line with more than indentation starts with both margins. -/
theorem margins_isPrefix {l : Text} (hl : l ∈ ls ++ [last]) (hsolid : l.all isIndentChar = false) :
    margin (tidyLines t) <+: indentation l ∧ margin (tidyLines (crlf t)) <+: indentation l := by
  have hkept := emptyIfBlank_of_solid hsolid
  constructor
  · refine margin_isPrefix ?_ (ne_nil_of_solid hsolid)
    rw [tidyLines, hlines, ← hkept]
    exact List.mem_map_of_mem hl
  · rcases List.mem_append.mp hl with hl | hl
    · exact margin_crlf_isPrefix hcrlf hl
    · refine margin_isPrefix ?_ (ne_nil_of_solid hsolid)
      rw [tidyLines_crlf hcrlf, ← List.mem_singleton.mp hl, hkept]
      simp

include hlines hcrlf in
/-- Lines that are the margin do not change it when they begin to count. -/
theorem margin_crlf {line : Text} (hline : line ∈ ls ++ [last])
    (hsolid : line.all isIndentChar = false)
    (hblanks : ∀ l ∈ ls, l.all isIndentChar = true → l = margin (tidyLines t)) :
    margin (tidyLines (crlf t)) = margin (tidyLines t) := by
  have hle : margin (tidyLines (crlf t)) <+: margin (tidyLines t) := by
    have hmem : line ∈ tidyLines t := by
      rw [tidyLines, hlines, ← emptyIfBlank_of_solid hsolid]
      exact List.mem_map_of_mem hline
    refine isPrefix_margin hmem (ne_nil_of_solid hsolid) fun l hl hne => ?_
    rw [tidyLines, hlines] at hl
    obtain ⟨q, hq, rfl⟩ := List.mem_map.mp hl
    have hq' := solid_of_emptyIfBlank hne
    rw [emptyIfBlank_of_solid hq']
    exact (margins_isPrefix hlines hcrlf hq hq').2
  have hge : margin (tidyLines t) <+: margin (tidyLines (crlf t)) := by
    obtain ⟨first, hfirst, hne⟩ : ∃ l ∈ tidyLines (crlf t), l ≠ [] := by
      rw [tidyLines_crlf hcrlf]
      rcases List.mem_append.mp hline with hline | hline
      · exact ⟨line ++ ['\r'], List.mem_append_left _ (List.mem_map_of_mem hline), by simp⟩
      · refine ⟨line, ?_, ne_nil_of_solid hsolid⟩
        rw [← List.mem_singleton.mp hline, emptyIfBlank_of_solid hsolid]
        simp
    refine isPrefix_margin hfirst hne fun l hl hne => ?_
    rw [tidyLines_crlf hcrlf] at hl
    rcases List.mem_append.mp hl with hl | hl
    · obtain ⟨q, hq, rfl⟩ := List.mem_map.mp hl
      rw [indentation_return]
      cases hall : q.all isIndentChar with
      | true =>
        have hself := (hblanks q hq hall).symm.trans (indentation_of_all hall).symm
        exact hself ▸ List.prefix_refl _
      | false => exact (margins_isPrefix hlines hcrlf (by simp [hq]) hall).1
    · have hlast := List.mem_singleton.mp hl
      have hl' := solid_of_emptyIfBlank (hlast ▸ hne)
      rw [hlast, emptyIfBlank_of_solid hl']
      exact (margins_isPrefix hlines hcrlf (by simp) hl').1
  exact hle.eq_of_length (Nat.le_antisymm hle.length_le hge.length_le)

include hlines hcrlf in
/-- What a line keeps tells the length of the margins. -/
theorem margin_eq_of_drop_eq {line : Text} (hline : line ∈ ls ++ [last])
    (hsolid : line.all isIndentChar = false)
    (hdrop : line.drop (margin (tidyLines (crlf t))).length
      = line.drop (margin (tidyLines t)).length) :
    margin (tidyLines (crlf t)) = margin (tidyLines t) := by
  obtain ⟨hlf, hcr⟩ := margins_isPrefix hlines hcrlf hline hsolid
  have hfits := (hlf.trans (List.takeWhile_prefix _)).length_le
  have hfits' := (hcr.trans (List.takeWhile_prefix _)).length_le
  have hlength := congrArg List.length hdrop
  rw [List.length_drop, List.length_drop] at hlength
  exact (List.prefix_of_prefix_length_le hcr hlf (by omega)).eq_of_length (by omega)

end Lines

theorem exists_mem_splitAtChar {sep c : Char} {t : Text} (hc : c ∈ t) (hne : c ≠ sep) :
    ∃ l ∈ splitAtChar sep t, c ∈ l := by
  fun_induction splitAtChar sep t with
  | case1 => simp at hc
  | case2 ds ih =>
    obtain ⟨l, hl, hmem⟩ := ih ((List.mem_cons.mp hc).resolve_left hne)
    exact ⟨l, List.mem_cons_of_mem _ hl, hmem⟩
  | case3 d ds _ hnil _ => exact absurd hnil (splitAtChar_ne_nil sep ds)
  | case4 d ds _ piece pieces heq ih =>
    rcases List.mem_cons.mp hc with rfl | hc
    · exact ⟨c :: piece, by simp, by simp⟩
    obtain ⟨l, hl, hmem⟩ := ih hc
    rw [heq] at hl
    rcases List.mem_cons.mp hl with rfl | hl
    · exact ⟨d :: l, by simp, by simp [hmem]⟩
    · exact ⟨l, by simp [hl], hmem⟩

/-- The margin goes from a text and from the converted text alike if and only if the lines of
indentation only are the margin. -/
theorem withoutMargin_crlf {t : Text} (hsolid : t = [] ∨ ∃ c ∈ t, isIndentChar c = false ∧ c ≠ '\n') :
    withoutMargin (crlf t) = crlf (withoutMargin t) ↔ BlanksAtMargin t := by
  rcases hsolid with rfl | ⟨c, hc, hindent, hnewline⟩
  · exact ⟨fun _ => by decide, fun _ => rfl⟩
  obtain ⟨ls, last, hlines, hcrlf⟩ := splitAtChar_crlf t
  obtain ⟨line, hline, hmem⟩ := exists_mem_splitAtChar hc hnewline
  have hline' : line.all isIndentChar = false := List.all_eq_false.mpr ⟨c, hmem, by simp [hindent]⟩
  rw [hlines] at hline
  rw [withoutMargin_crlf_iff hlines hcrlf, BlanksAtMargin, hlines, List.dropLast_concat]
  constructor
  · rintro ⟨hls, hlast⟩
    have hmargin : margin (tidyLines (crlf t)) = margin (tidyLines t) := by
      refine margin_eq_of_drop_eq hlines hcrlf hline hline' ?_
      rcases List.mem_append.mp hline with hl | hl
      · rw [hls line hl, emptyIfBlank_of_solid hline']
      · rwa [← List.mem_singleton.mp hl, emptyIfBlank_of_solid hline'] at hlast
    intro l hl hblank
    have hdrop := hls l hl
    rw [emptyIfBlank, if_pos hblank, List.drop_nil, List.drop_eq_nil_iff] at hdrop
    rw [← hmargin]
    exact (((margin_crlf_isPrefix hcrlf hl).trans (List.takeWhile_prefix _)).eq_of_length_le
      hdrop).symm
  · intro hblanks
    rw [margin_crlf hlines hcrlf hline hline' hblanks]
    refine ⟨fun l hl => ?_, rfl⟩
    cases hall : l.all isIndentChar with
    | true =>
      rw [emptyIfBlank, if_pos hall, List.drop_nil, ← hblanks l hl hall, List.drop_length]
    | false => rw [emptyIfBlank_of_solid hall]

end Graft.Text
