/-
Inline patches and the words around them.

An inline patch continues the line in front of it, so its first character stands right
behind the last one of that line.  A patch that starts and ends with separators can stand
behind everything but a line comment.  There it becomes a part of the comment, and so does
what follows it up to the end of the line.

* `separators`, `Separated` — characters that are always tokens of their own, and patches
  that start and end with them;
* `ContinuesComment` — what is inserted here continues a line comment;
* `Separated.units_append`, `units_append_separator` — the two seams of a patch;
* `units_lineComment_append` — a line comment that goes on;
* `words_splice_inline` — the words of the result in both cases.
-/
import Graft.Proofs.Splice.Conservation

namespace Graft

open Lexeme

/-! ### Separators -/

/-- Characters that are tokens of their own, whatever stands next to them. -/
def separators : List Char := ['(', ')', '[', ']', '\x7b', '\x7d', ';', ',', ':']

theorem separators_plain : ∀ c ∈ separators, Text.isBlank c = false ∧ isQuote c = false
    ∧ Text.isWordChar c = false ∧ isWordStart c = false ∧ c.isDigit = false
    ∧ c ∉ signs ∧ c ≠ '*' ∧ c ≠ '\n' := by
  have hall : separators.all fun c => !Text.isBlank c && !isQuote c && !Text.isWordChar c
      && !isWordStart c && !c.isDigit && !signs.contains c && c != '*' && c != '\n' := by
    decide +kernel
  intro c hc
  simpa [and_assoc] using List.all_eq_true.mp hall c hc

theorem breaks_of_separator {c : Char} (hc : c ∈ separators) : Breaks c := by
  obtain ⟨-, -, hword, -, hdigit, hsigns, hstar, -⟩ := separators_plain c hc
  refine ⟨hword, hdigit, ?_, hstar, fun d => ?_⟩
  · rintro rfl
    exact hsigns (by decide)
  · -- the second characters of operators are first ones as well
    refine Bool.eq_false_iff.mpr fun h => hsigns ?_
    simp only [isOperatorPair, List.contains_iff_mem, List.mem_cons, Prod.mk.injEq,
      List.not_mem_nil, or_false] at h
    rcases h with h | h | h | h | h | h | h | h | h | h | h <;> rw [h.2] <;> decide

theorem spells_separator {c : Char} (hc : c ∈ separators) (rest : Text) :
    Spells (if isBracket c then .bracket else .symbol) [c] rest := by
  obtain ⟨hblank, hquote, -, hstart, hdigit, hsigns, -, -⟩ := separators_plain c hc
  refine .single hblank hquote hstart hdigit ?_ ?_ fun d _ => ?_
  · rintro rfl
    exact absurd (by decide) hsigns
  · rintro rfl
    exact absurd (by decide) hsigns
  · exact Bool.eq_false_iff.mpr fun h => hsigns (mem_signs_of_isOperatorPair h)

/-- A separator is the same token in front of any text. -/
theorem Lexeme.Spells.of_separator {kind : Kind} {c : Char} {rest : Text}
    (h : Spells kind [c] rest) (hc : c ∈ separators) (rest' : Text) : Spells kind [c] rest' := by
  have hunits := (units_spells h).symm.trans (units_spells (spells_separator hc rest))
  obtain ⟨rfl, -⟩ := token.inj (List.cons.inj hunits).1
  exact spells_separator hc rest'

/-- Behind a closed text that does not end with a line comment a separator is a token of its
own. -/
theorem units_append_separator {a : Text} {c : Char} {cs : Text} (ha : Closed a)
    (hline : ∀ l, (units .source a).getLast? = some l → l.isLineComment = false)
    (hc : c ∈ separators) :
    units .source (a ++ c :: cs) = units .source a ++ units .source (c :: cs) := by
  refine units_append fun kind x hlast => ?_
  obtain ⟨hliteral, hcomment⟩ := closed_iff.mp ha _ (List.mem_of_getLast? hlast)
  refine (spells_of_getLast hlast).before_break (breaks_of_separator hc) hliteral hcomment ?_
  rw [hline _ hlast]
  simp

/-! ### Patches -/

/-- A token that is a separator starts at the offset. -/
def SeparatorAt (t : Text) (offset : Nat) : Prop :=
  ∃ token ∈ builtinTokens t, token.offset = some (offset : Int)
    ∧ ∃ c ∈ separators, token.text = [c]

instance (t : Text) (offset : Nat) : Decidable (SeparatorAt t offset) :=
  decidable_of_iff (((builtinTokens t).any fun token => token.offset == some (offset : Int)
    && separators.any (token.text == [·])) = true) (by simp [SeparatorAt])

/-- The first and the last character of a patch are separators, blanks apart. -/
structure Separated (patch : Text) : Prop where
  first : SeparatorAt patch (patch.takeWhile Text.isBlank).length
  last : SeparatorAt patch
    ((patch.takeWhile Text.isBlank).length + (Text.trim patch).length - 1)

theorem SeparatorAt.exists_units {t : Text} {offset : Nat} (h : SeparatorAt t offset) :
    ∃ xs ys kind c, c ∈ separators ∧ units .source t = xs ++ token kind [c] :: ys
      ∧ (textOf xs).length = offset := by
  obtain ⟨first, hmem, hoffset, c, hc, htext⟩ := h
  rw [builtinTokens_eq] at hmem
  obtain ⟨xs, ys, hunits, hplace⟩ := exists_of_mem_tokens hmem
  rw [htext] at hunits
  refine ⟨xs, ys, first.kind, c, hc, hunits, ?_⟩
  rw [hoffset, Nat.zero_add] at hplace
  exact (Int.ofNat_inj.mp (Option.some.inj hplace)).symm

/-- Trimming takes blanks away at both ends. -/
theorem Text.exists_trim (t : Text) :
    ∃ w, t = t.takeWhile isBlank ++ (trim t ++ w) ∧ ∀ c ∈ w, isBlank c = true := by
  refine ⟨((trimLeft t).reverse.takeWhile isBlank).reverse, ?_, ?_⟩
  · rw [trim, trimRight, ← List.reverse_append, List.takeWhile_append_dropWhile,
      List.reverse_reverse, trimLeft, List.takeWhile_append_dropWhile]
  · intro c hc
    exact forall_mem_takeWhile c (List.mem_reverse.mp hc)

namespace Separated

variable {patch : Text} (h : Separated patch)

include h

theorem exists_trim_eq : ∃ c cs, c ∈ separators ∧ Text.trim patch = c :: cs := by
  obtain ⟨w, hpatch, hw⟩ := Text.exists_trim patch
  obtain ⟨xs, ys, kind, c, hc, hunits, hlength⟩ := h.first.exists_units
  have htext : textOf xs ++ ([c] ++ textOf ys)
      = patch.takeWhile Text.isBlank ++ (Text.trim patch ++ w) := by
    rw [← hpatch, ← textOf_units patch, hunits, textOf_append, textOf_cons, text]
  obtain ⟨-, hrest⟩ := List.append_inj htext hlength
  refine ⟨c, ?_⟩
  cases htrim : Text.trim patch with
  | nil =>
    -- the separator would be blank
    rw [htrim, List.nil_append] at hrest
    have hblank := hw c (by rw [← hrest]; simp)
    rw [(separators_plain c hc).1] at hblank
    exact absurd hblank (by simp)
  | cons d cs =>
    rw [htrim, List.cons_append] at hrest
    exact ⟨cs, hc, by rw [(List.cons.inj hrest).1]⟩

theorem getLast_units_trim : ∃ kind c, c ∈ separators
    ∧ (units .source (Text.trim patch)).getLast? = some (token kind [c]) := by
  obtain ⟨w, hpatch, -⟩ := Text.exists_trim patch
  obtain ⟨d, cs, -, htrim⟩ := h.exists_trim_eq
  obtain ⟨xs, ys, kind, c, hc, hunits, hlength⟩ := h.last.exists_units
  refine ⟨kind, c, hc, ?_⟩
  have htext : (textOf xs ++ [c]) ++ textOf ys
      = (patch.takeWhile Text.isBlank ++ Text.trim patch) ++ w := by
    rw [List.append_assoc, List.append_assoc, ← hpatch, ← textOf_units patch, hunits,
      textOf_append, textOf_cons, text]
  have hfront : textOf xs ++ [c] = patch.takeWhile Text.isBlank ++ Text.trim patch := by
    refine (List.append_inj htext ?_).1
    rw [List.length_append, List.length_append, hlength, htrim]
    simp only [List.length_cons, List.length_nil]
    omega
  have hcut := (units_cut (show units .source patch = (xs ++ [token kind [c]]) ++ ys by
    rw [hunits, List.append_assoc, List.singleton_append])).1
  rw [textOf_append, textOf_cons, textOf_nil, text, List.append_nil, hfront,
    units_blanks _ forall_mem_takeWhile] at hcut
  have hlast := congrArg List.getLast? hcut
  rw [List.getLast?_concat, List.getLast?_append] at hlast
  cases hunits' : (units .source (Text.trim patch)).getLast? with
  | some l => rwa [hunits', Option.some_or] at hlast
  | none =>
    have hnil := textOf_units (Text.trim patch)
    rw [List.getLast?_eq_none_iff.mp hunits', htrim] at hnil
    exact absurd hnil (by simp)

/-- Anything may follow the patch. -/
theorem units_append (b : Text) : units .source (Text.trim patch ++ b)
    = units .source (Text.trim patch) ++ units .source b := by
  obtain ⟨kind, c, hc, hlast⟩ := h.getLast_units_trim
  refine Lexeme.units_append fun kind' x hlast' => ?_
  obtain ⟨rfl, rfl⟩ := token.inj (Option.some.inj (hlast'.symm.trans hlast))
  exact (spells_of_getLast hlast).of_separator hc b

theorem words_trim : words (Text.trim patch) = words patch := by
  obtain ⟨w, hpatch, hw⟩ := Text.exists_trim patch
  calc words (Text.trim patch)
      = words (Text.trim patch ++ w) := (words_append_blanks (h.units_append w) hw).symm
    _ = words (patch.takeWhile Text.isBlank ++ (Text.trim patch ++ w)) :=
        (words_blanks forall_mem_takeWhile _).symm
    _ = words patch := by rw [← hpatch]

end Separated

/-! ### In front of the patch -/

/-- The text ends with a line comment. -/
def endsInLineComment (t : Text) : Bool := (units .source t).getLast?.any isLineComment

/-- What follows the text inline continues a line comment: the text ends with one, or with the
line end behind one and the indentation of the next line. -/
def ContinuesComment (before : Text) : Prop :=
  ∃ front cut, before = front ++ cut ∧ endsInLineComment front = true
    ∧ (cut = [] ∨ ∃ w, cut = '\n' :: w ∧ ∀ c ∈ w, Text.isBlank c = true ∧ c ≠ '\n')

theorem exists_of_endsInLineComment {t : Text} (h : endsInLineComment t = true) :
    ∃ xs cs, units .source t = xs ++ [token .comment ('/' :: '/' :: cs)] ∧ '\n' ∉ cs
      ∧ t = textOf xs ++ '/' :: '/' :: cs := by
  rw [endsInLineComment, Option.any_eq_true] at h
  obtain ⟨l, hlast, hline⟩ := h
  obtain ⟨xs, hxs⟩ := List.getLast?_eq_some_iff.mp hlast
  have htext : t = textOf xs ++ l.text := by
    rw [← textOf_units t, hxs, textOf_append, textOf_cons, textOf_nil, List.append_nil]
  unfold isLineComment at hline
  split at hline
  · rename_i cs
    refine ⟨xs, cs, hxs, fun hnewline => ?_, htext⟩
    exact (spells_of_getLast hlast).newline_not_mem rfl (by simp [hnewline])
  · exact absurd hline (by simp)

/-- A line comment at the end of a text stays in front of an inline patch: its line is not
blank and does not end. -/
theorem inlineHead_of_endsInLineComment {t : Text} (h : endsInLineComment t = true) :
    Splice.inlineHead t = t := by
  obtain ⟨xs, cs, -, hcs, ht⟩ := exists_of_endsInLineComment h
  have hnewline : '\n' ∉ '/' :: '/' :: cs := by simpa using hcs
  have hline : Text.isAllBlank (Text.lastLine t) = false := by
    refine Bool.eq_false_iff.mpr fun hblank => ?_
    have hmem : '/' ∈ Text.lastLine t := by
      rw [ht, Text.lastLine, List.reverse_append, List.takeWhile_append_of_pos]
      · simp
      · intro c hc
        rw [bne_iff_ne]
        rintro rfl
        exact hnewline (List.mem_reverse.mp hc)
    exact absurd (Text.isAllBlank_iff.mp hblank _ hmem) (by decide)
  have hend : Text.endsWithNewline t = false := by
    refine Bool.eq_false_iff.mpr fun hend => hnewline ?_
    have hlast : t.getLast? = some '\n' := by simpa [Text.endsWithNewline] using hend
    rw [ht, List.getLast?_append] at hlast
    exact List.mem_of_getLast? (by simpa using hlast)
  have hkept : Splice.kept t = t := by rw [Splice.kept, hline, if_neg Bool.false_ne_true]
  rw [Splice.inlineHead, hkept, hend, if_neg Bool.false_ne_true]

/-- An inline patch stands behind everything, or at the end of the last line that is not
blank, or in front of everything. -/
theorem exists_inlineHead_append (before : Text) : ∃ cut, before = Splice.inlineHead before ++ cut
    ∧ (cut = [] ∨ Splice.inlineHead before = []
      ∨ ∃ w, cut = '\n' :: w ∧ ∀ c ∈ w, Text.isBlank c = true ∧ c ≠ '\n') := by
  by_cases hblank : Text.isAllBlank (Text.lastLine before) = true
  · have hkept : Splice.kept before = Text.withoutLastLine before := if_pos hblank
    have hsplit := Text.withoutLastLine_append_lastLine before
    rw [Splice.inlineHead, hkept]
    rcases Text.endsLine_withoutLastLine before with hnil | hlast
    · rw [hnil]
      exact ⟨before, rfl, .inr (.inl rfl)⟩
    · have hend : Text.endsWithNewline (Text.withoutLastLine before) = true := by
        simp [Text.endsWithNewline, hlast]
      rw [if_pos hend]
      refine ⟨'\n' :: Text.lastLine before, ?_, .inr (.inr ⟨_, rfl, fun c hc => ⟨?_, ?_⟩⟩)⟩
      · rw [← List.singleton_append, ← List.append_assoc, Splice.dropLast_append_newline hend, hsplit]
      · exact Text.isAllBlank_iff.mp hblank c hc
      · rintro rfl
        exact Text.newline_not_mem_lastLine before hc
  · have hkept : Splice.kept before = before := if_neg hblank
    rw [Splice.inlineHead, hkept]
    split
    · rename_i hend
      exact ⟨['\n'], (Splice.dropLast_append_newline hend).symm, .inr (.inr ⟨[], rfl, by simp⟩)⟩
    · exact ⟨[], by simp, .inl rfl⟩

/-- Where the patch continues a comment, that comment stands in front of it. -/
theorem continuesComment_iff {before : Text} :
    ContinuesComment before ↔ endsInLineComment (Splice.inlineHead before) = true := by
  constructor
  · rintro ⟨front, cut, rfl, hfront, rfl | ⟨w, rfl, hw⟩⟩
    · rwa [List.append_nil, inlineHead_of_endsInLineComment hfront]
    · have hkept := Splice.kept_append (show Text.EndsLine (front ++ ['\n']) from .inr (by simp)) hw
      rw [List.append_assoc, List.singleton_append] at hkept
      rwa [Splice.inlineHead, hkept, if_pos (by simp [Text.endsWithNewline]),
        List.dropLast_concat]
  · intro h
    obtain ⟨cut, hbefore, hcut⟩ := exists_inlineHead_append before
    refine ⟨_, cut, hbefore, h, ?_⟩
    rcases hcut with hcut | hnil | hcut
    · exact .inl hcut
    · rw [hnil] at h
      exact absurd h (by decide +kernel)
    · exact .inr hcut

/-- A newline at the end of a closed text is a unit of its own. -/
theorem units_newline_end {p : Text} (h : Closed (p ++ ['\n'])) :
    units .source (p ++ ['\n']) = units .source p ++ units .source ['\n'] := by
  refine units_of_not_inside fun hinside => ?_
  obtain ⟨kind, x₁, x₂, hmem, -, hx₂, -, hfront⟩ := hinside.straddles
  obtain ⟨xs, ys, hunits⟩ := List.append_of_mem hmem
  obtain ⟨hliteral, hcomment⟩ := closed_iff.mp h _ hmem
  refine (spells_of_units hunits).getLast_ne_newline hliteral hcomment ?_
  obtain rfl : x₂ = ['\n'] := by
    rcases List.prefix_cons_iff.mp hfront with hnil | ⟨y, rfl, hy⟩
    · exact absurd hnil hx₂
    · rw [List.prefix_nil.mp hy]
  exact List.getLast?_concat

/-- What goes in front of an inline patch were no words, and nothing is left open. -/
theorem words_inlineHead {a : Text} (ha : Closed a) :
    Closed (Splice.inlineHead a) ∧ words (Splice.inlineHead a) = words a := by
  obtain ⟨hkept, hwords⟩ := words_kept ha
  rw [Splice.inlineHead, ← hwords]
  split
  · rename_i hend
    have hsplit := Splice.dropLast_append_newline hend
    rw [← hsplit] at hkept
    have hunits := units_newline_end hkept
    refine ⟨((closed_append hunits).mp hkept).1, ?_⟩
    rw [← words_append_blanks hunits (by simp [Text.isBlank]), hsplit]
  · exact ⟨hkept, rfl⟩

/-- A line comment at the end of a text goes on with what follows it, up to the end of the
line. -/
theorem units_lineComment_append {a : Text} (ha : endsInLineComment a = true) (b : Text) :
    ∃ xs x, units .source a = xs ++ [token .comment x]
      ∧ units .source (a ++ b) = xs ++ token .comment (x ++ b.takeWhile (· != '\n'))
        :: units .source (b.dropWhile (· != '\n')) := by
  obtain ⟨xs, cs, hunits, hcs, htext⟩ := exists_of_endsInLineComment ha
  refine ⟨xs, '/' :: '/' :: cs, hunits, ?_⟩
  have hcomment : Spells .comment ('/' :: '/' :: (cs ++ b.takeWhile (· != '\n')))
      (b.dropWhile (· != '\n')) := by
    refine .lineComment ?_ stopsAt_dropWhile
    rw [List.mem_append]
    rintro (hmem | hmem)
    · exact hcs hmem
    · exact absurd (forall_mem_takeWhile _ hmem) (by simp)
  have hxs : units .source (textOf xs) = xs := (units_cut hunits).1
  -- the last token in front of the comment sees no more than its first character
  have hseam : ∀ kind y, (units .source (textOf xs)).getLast? = some (token kind y) →
      Spells kind y ('/' :: '/' :: (cs ++ b)) := by
    intro kind y hlast
    rw [hxs] at hlast
    obtain ⟨zs, rfl⟩ := List.getLast?_eq_some_iff.mp hlast
    rw [List.append_assoc] at hunits
    exact (spells_of_units hunits).congr_head rfl
  have hsplit : a ++ b = textOf xs ++ ('/' :: '/' :: (cs ++ b)) := by
    rw [htext, List.append_assoc]
    rfl
  have hrest : '/' :: '/' :: (cs ++ b) = '/' :: '/' :: (cs ++ b.takeWhile (· != '\n'))
      ++ b.dropWhile (· != '\n') := by
    simp [List.takeWhile_append_dropWhile]
  rw [hsplit, units_append hseam, hxs, hrest, units_spells hcomment]
  rfl

/-- Behind a line comment the next characters are a part of it. -/
theorem inside_of_endsInLineComment {a : Text} {c : Char} {cs : Text}
    (ha : endsInLineComment a = true) (hc : c ≠ '\n') : Inside (a ++ c :: cs) a.length := by
  refine Decidable.byContradiction fun hinside => ?_
  obtain ⟨xs, x, hunits, hunits'⟩ := units_lineComment_append ha (c :: cs)
  rw [units_of_not_inside hinside, hunits, List.append_assoc] at hunits'
  have hcomment := (List.cons.inj (List.append_cancel_left hunits')).1
  have hgrown := (token.inj hcomment).2
  rw [List.takeWhile_cons_of_pos (by simpa using hc)] at hgrown
  exact absurd (List.self_eq_append_right.mp hgrown) (by simp)

theorem words_of_endsInLineComment {a : Text} (ha : endsInLineComment a = true) (b : Text) :
    words (a ++ b) = words a ++ words (b.dropWhile (· != '\n')) := by
  obtain ⟨xs, x, hunits, hunits'⟩ := units_lineComment_append ha b
  simp only [words_eq, hunits, hunits', List.filterMap_append, List.filterMap_cons]
  simp [word?]

/-! ### The whole -/

/-- **Inline patches keep the words around them, unless they continue a comment.**  A patch
that starts and ends with separators is inserted in front of token `k`.  If it does not continue
a line comment, the words of the result are the first `k` words of the source, the words of the
patch, and the other words of the source.  If it does, all that stands up to the next line end
is lost to the comment, and the patch starts inside of it. -/
theorem words_splice_inline {source patch : Text} {k offset : Nat} (hsource : Closed source)
    (hstart : StartsAt source k offset) (hpatch : Separated patch) :
    let result := splice source ⟨offset, none⟩ patch .inline
    (¬ ContinuesComment (source.take offset) →
      words result.text = (words source).take k ++ words patch ++ (words source).drop k)
    ∧ (ContinuesComment (source.take offset) →
      words result.text = (words source).take k
        ++ words ((Text.trim patch ++ source.drop offset).dropWhile (· != '\n')))
    ∧ (Inside result.text result.inserted.offset.toNat ↔ ContinuesComment (source.take offset)) := by
  obtain ⟨a, b, rfl, hoffset, hcut, hk⟩ := exists_cut_at_token hstart
  obtain rfl : offset = a.length := Int.ofNat_inj.mp hoffset
  obtain ⟨c, cs, hc, htrim⟩ := hpatch.exists_trim_eq
  obtain ⟨hhead, hwords⟩ := words_inlineHead ((closed_append hcut).mp hsource).1
  intro result
  have htext : result.text = Splice.inlineHead a ++ (Text.trim patch ++ b) := by
    have hresume : Splice.resume ⟨a.length, none⟩ = a.length := Splice.resume_of_le (by simp)
    show Splice.inlineHead _ ++ Text.trim patch ++ Text.startingAt _ _ = _
    rw [hresume, Text.upTo_natCast, Text.startingAt_natCast, List.take_left, List.drop_left,
      List.append_assoc]
  have hplace : result.inserted.offset.toNat = (Splice.inlineHead a).length := by
    show ((Splice.inlineHead (Text.upTo (a ++ b) a.length)).length : Int).toNat = _
    rw [Text.upTo_natCast, List.take_left, Int.toNat_natCast]
  have hfirst : words a = (words (a ++ b)).take k := by rw [words_append hcut, List.take_left' hk]
  have hlater : words b = (words (a ++ b)).drop k := by rw [words_append hcut, List.drop_left' hk]
  rw [htext, hplace, List.take_left, List.drop_left, continuesComment_iff, ← hfirst, ← hlater]
  -- the first seam, where no comment is continued
  have hseam : endsInLineComment (Splice.inlineHead a) ≠ true →
      units .source (Splice.inlineHead a ++ (Text.trim patch ++ b))
        = units .source (Splice.inlineHead a) ++ units .source (Text.trim patch ++ b) := by
    intro hline
    rw [htrim, List.cons_append]
    refine units_append_separator hhead (fun l hlast => ?_) hc
    simpa [endsInLineComment, hlast] using hline
  refine ⟨fun hline => ?_, fun hline => ?_, fun hinside => ?_, fun hline => ?_⟩
  · rw [words_append (hseam hline), hwords, words_append (hpatch.units_append b),
      hpatch.words_trim, List.append_assoc]
  · rw [words_of_endsInLineComment hline, hwords]
  · exact Decidable.byContradiction fun hline => not_inside_of_units (hseam hline) hinside
  · rw [htrim, List.cons_append]
    obtain ⟨-, -, -, -, -, -, -, hnewline⟩ := separators_plain c hc
    exact inside_of_endsInLineComment hline hnewline

/-- A call continues a line; the comment further up stays apart. -/
theorem words_splice_inline_call :
    words (splice "f // c\n  g\n  b".toList ⟨13, none⟩ " (x);\n".toList .inline).text
      = [(.identifier, ['f']), (.identifier, ['g']), (.bracket, ['(']), (.identifier, ['x']),
        (.bracket, [')']), (.symbol, [';']), (.identifier, ['b'])] := by
  have hclosed : Closed "f // c\n  g\n  b".toList := ⟨by decide +kernel, by decide +kernel⟩
  have hstart : StartsAt "f // c\n  g\n  b".toList 2 13 :=
    .inl ⟨⟨.identifier, ['b'], 0, some 13⟩, by decide +kernel, rfl⟩
  have hpatch : Separated " (x);\n".toList := ⟨by decide +kernel, by decide +kernel⟩
  have happart : ¬ ContinuesComment ("f // c\n  g\n  b".toList.take 13) := by
    rw [continuesComment_iff]
    decide +kernel
  refine ((words_splice_inline hclosed hstart hpatch).1 happart).trans ?_
  decide +kernel

/-- Behind a line comment both the patch and the token that follows it are lost. -/
theorem words_splice_inline_comment :
    Closed "//\na".toList ∧ StartsAt "//\na".toList 0 3 ∧ Separated ";".toList
      ∧ (splice "//\na".toList ⟨3, none⟩ ";".toList .inline).text = "//;a".toList
      ∧ words (splice "//\na".toList ⟨3, none⟩ ";".toList .inline).text = []
      ∧ words "//\na".toList = [(.identifier, ['a'])] ∧ words ";".toList = [(.symbol, [';'])] := by
  refine ⟨⟨by decide +kernel, by decide +kernel⟩, ?_, ⟨by decide +kernel, by decide +kernel⟩, ?_⟩
  · exact .inl ⟨⟨.identifier, ['a'], 0, some 3⟩, by decide +kernel, rfl⟩
  · decide +kernel

end Graft
