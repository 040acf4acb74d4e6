/-
Comments of a pattern.

A comment of a pattern makes a token of its own, and a newline makes none.  Wherever a comment
stands, the lexemes in front of it end where it starts, and those behind it start where it ends.
So a newline in its place leaves all of them as they are.  A comment changes no depth, so the
depths are levelled alike:

* `units_before_newline` — what one step reads, with a newline further on;
* `units_replace_comment` — the units of a pattern with a newline in place of a comment;
* `ofText_replace_comment` — its tokens.
-/
import Graft.Pattern
import Graft.Proofs.Lexing.Depth
import Graft.Proofs.Lexing.Written

namespace Graft

/-- The token is a comment. -/
def Token.isComment (token : Token) : Bool := token.kind == .comment

/-- The pattern with its comments left out. -/
def Pattern.withoutComments (pattern : Pattern) : Pattern := ⟨pattern.tokens.filter (!·.isComment)⟩

namespace Lexeme

theorem units_cons (mode : Mode) (c : Char) (cs : Text) : units mode (c :: cs)
    = (advance mode c cs).1.flatMap loosen ++ units mode (advance mode c cs).2 := by
  rw [units, lexemes_cons, List.flatMap_append]
  rfl

theorem textOf_units_pattern (t : Text) : textOf (units .pattern t) = t := by
  rw [units, textOf_flatMap_loosen, textOf_lexemes]

/-! ### A newline further on -/

/-- A newline in place of some text makes no marker of what stands in front of it. -/
theorem marker?_before_newline {s y : Text} (h : marker? (s ++ y) = none) (z : Text) :
    marker? (s ++ '\n' :: z) = none := by
  refine marker?_eq_none.mpr fun kind hkind => ?_
  rcases Nat.lt_or_ge s.length kind.marker.length with hlt | hge
  · -- a marker that is longer than `s` would hold the newline
    have hfront : s ++ ['\n'] <+: s ++ '\n' :: z := ⟨z, by simp⟩
    have hnewline : '\n' ∈ kind.marker :=
      (List.prefix_of_prefix_length_le hfront hkind (by simp; omega)).subset (by simp)
    cases kind <;> first | rfl | exact absurd hnewline (by decide)
  · have hstart := List.prefix_of_prefix_length_le hkind (List.prefix_append s _) hge
    exact marker?_eq_none.mp h kind (hstart.trans (List.prefix_append s y))

/-- A closed literal is read in a pattern as it is, whatever follows it. -/
theorem advance_closed {q : Char} (hq : isQuote q = true) {x : Text}
    (hx : literalTail q x = ⟨x, [], .closed⟩) (rest : Text) :
    advance .pattern q (x ++ rest) = (literalLexemes .pattern [] true (q :: x), rest) := by
  unfold advance
  rw [step_quote hq, literalStep, literalTail_append hx]

/-- What one step reads of a pattern is read as before, if a newline takes the place of some text
further on. -/
theorem advance_before_newline {c : Char} {cs s y : Text} (hc : Text.isBlank c = false)
    (hrest : (advance .pattern c cs).2 = s ++ y) (hy : y ≠ []) (z : Text) :
    ∃ x, textOf (advance .pattern c cs).1 = c :: x
      ∧ advance .pattern c (x ++ (s ++ '\n' :: z))
        = ((advance .pattern c cs).1, s ++ '\n' :: z) := by
  have hne : s ++ y ≠ [] := List.append_ne_nil_of_right_ne_nil s hy
  cases hmarker : modeMarker? .pattern (c :: cs) with
  | some kind =>
    obtain ⟨hkind, hsplit⟩ := marker?_eq_some hmarker
    rw [advance_marker hc hmarker]
    cases kind with
    | wildcard | inserter | folder =>
      obtain ⟨rfl, -⟩ := List.cons.inj hsplit
      exact ⟨_, rfl, rfl⟩
    | _ => exact absurd rfl hkind
  | none =>
    by_cases hquote : isQuote c = true
    · obtain ⟨x, rest, rfl, hx, hadvance⟩ := advance_literal hquote .pattern cs
      rw [hadvance] at hrest ⊢
      obtain rfl : rest = s ++ y := hrest
      obtain ⟨-, hclosed | ⟨-, hnil⟩⟩ := hx.literal_cases rfl
      · exact ⟨x, (literalLexemes_written hx .pattern).2, advance_closed hquote hclosed _⟩
      · exact absurd hnil hne
    · obtain ⟨kind, x, rest, rfl, hx⟩ := exists_spells hc cs
      rw [advance_unmarked hc hmarker hquote, advance_spells hx] at hrest ⊢
      obtain rfl : rest = s ++ y := hrest
      -- the token sees the same character behind it, or the newline
      have hspells : Spells kind (c :: x) (s ++ '\n' :: z) := by
        cases s with
        | nil => exact hx.before_newline hne z
        | cons d s => exact hx.congr_head rfl
      have hunmarked : modeMarker? .pattern (c :: (x ++ (s ++ '\n' :: z))) = none := by
        have hjoin : ∀ w : Text, c :: (x ++ (s ++ w)) = c :: (x ++ s) ++ w := by simp
        rw [modeMarker?, hjoin] at hmarker ⊢
        exact marker?_before_newline hmarker z
      refine ⟨x, by simp [text], ?_⟩
      rw [advance_unmarked hc hunmarked hquote, advance_spells hspells]

theorem units_before_newline {c : Char} {cs s y : Text}
    (hrest : (advance .pattern c cs).2 = s ++ y) (hy : y ≠ []) (z : Text) :
    units .pattern (textOf (advance .pattern c cs).1 ++ (s ++ '\n' :: z))
      = (advance .pattern c cs).1.flatMap loosen ++ units .pattern (s ++ '\n' :: z) := by
  by_cases hblank : Text.isBlank c = true
  · have hrun : ∀ d ∈ c :: cs.takeWhile Text.isBlank, Text.isBlank d = true := by
      intro d hd
      rcases List.mem_cons.mp hd with rfl | hd
      · exact hblank
      · exact forall_mem_takeWhile d hd
    rw [advance_blank hblank, textOf_cons, textOf_nil, List.append_nil, text,
      units_blanks _ hrun, List.flatMap_singleton, loosen]
  · obtain ⟨x, htext, hadvance⟩ := advance_before_newline (by simpa using hblank) hrest hy z
    rw [htext, List.cons_append, units_cons, hadvance]

/-! ### A newline in place of a comment -/

theorem comment_not_mem_fragments {others : List (Kind × Text)}
    (hkinds : ∀ p ∈ others, p.1.marker ≠ []) (x : Text) :
    ∀ piece, token .comment x ∉ fragments true piece others := by
  have hfragment : ∀ piece, token .comment x ∉ fragment piece := by
    intro piece
    cases piece <;> simp [fragment]
  induction others with
  | nil => exact hfragment
  | cons p others ih =>
    intro piece h
    rcases List.mem_append.mp h with h | h
    · exact hfragment piece h
    rcases List.mem_cons.mp h with h | h
    · obtain ⟨hkind, -⟩ := token.inj h
      exact hkinds p (by simp) (by rw [← hkind]; rfl)
    · exact ih (fun q hq => hkinds q (by simp [hq])) p.2 h

theorem comment_not_mem_literal (literal x : Text) :
    token .comment x ∉ literalLexemes .pattern [] true literal := by
  have hmarkers := literalPieces_markers [] literal
  unfold literalLexemes
  generalize literalPieces [] literal = pieces at hmarkers
  obtain ⟨first, others⟩ := pieces
  cases others with
  | nil => simp
  | cons p others => exact comment_not_mem_fragments hmarkers x first

/-- A step that reads a comment reads nothing else. -/
theorem advance_comment {c : Char} {cs x : Text}
    (h : token .comment x ∈ (advance .pattern c cs).1) :
    (advance .pattern c cs).1 = [token .comment x] := by
  by_cases hblank : Text.isBlank c = true
  · rw [advance_blank hblank] at h
    simp at h
  have hc : Text.isBlank c = false := by simpa using hblank
  cases hmarker : modeMarker? .pattern (c :: cs) with
  | some kind =>
    rw [advance_marker hc hmarker] at h ⊢
    rw [List.mem_singleton.mp h]
  | none =>
    by_cases hquote : isQuote c = true
    · obtain ⟨y, rest, -, -, hadvance⟩ := advance_literal hquote .pattern cs
      rw [hadvance] at h
      exact absurd h (comment_not_mem_literal _ x)
    · obtain ⟨kind, y, rest, rfl, hy⟩ := exists_spells hc cs
      rw [advance_unmarked hc hmarker hquote, advance_spells hy] at h ⊢
      rw [List.mem_singleton.mp h]

/-- The units of a pattern with a newline in place of a comment. -/
theorem units_replace_comment {x : Text} {ys : List Lexeme} (t : Text) : ∀ {xs : List Lexeme},
    units .pattern t = xs ++ token .comment x :: ys →
      units .pattern (textOf xs ++ '\n' :: textOf ys) = xs ++ blank ['\n'] :: ys := by
  induction t using advance_induction .pattern with
  | nil =>
    intro xs h
    simp at h
  | cons c cs ih =>
    intro xs h
    have htext := textOf_units_pattern (advance .pattern c cs).2
    -- a comment behind the first step
    have hbehind : ∀ zs, units .pattern (advance .pattern c cs).2 = zs ++ token .comment x :: ys →
        xs = (advance .pattern c cs).1.flatMap loosen ++ zs →
        units .pattern (textOf xs ++ '\n' :: textOf ys) = xs ++ blank ['\n'] :: ys := by
      rintro zs hzs rfl
      rw [hzs, textOf_append, textOf_cons, text] at htext
      have hx : x ≠ [] := by
        have hmem : token .comment x ∈ lexemes .pattern (advance .pattern c cs).2 :=
          mem_units.mp (by simp [hzs])
        exact (written_of_mem_lexemes hmem).text_ne_nil
      have hstep := units_before_newline htext.symm (List.append_ne_nil_of_left_ne_nil hx _)
        (textOf ys)
      rw [textOf_append, textOf_flatMap_loosen, List.append_assoc, hstep, ih hzs,
        List.append_assoc]
    rw [units_cons] at h
    rcases List.append_eq_append_iff.mp h with ⟨zs, hxs, hzs⟩ | ⟨zs, hxs, hzs⟩
    · exact hbehind zs hzs hxs
    cases zs with
    | nil => exact hbehind [] hzs.symm (by simpa using hxs.symm)
    | cons l zs =>
      -- the first step reads the comment
      rw [List.cons_append] at hzs
      obtain ⟨rfl, rfl⟩ := List.cons.inj hzs
      have hstep : (advance .pattern c cs).1 = [token .comment x] :=
        advance_comment (mem_flatMap_loosen.mp (by simp [hxs]))
      obtain ⟨rfl, rfl⟩ : xs = [] ∧ zs = [] := by
        rw [hstep] at hxs
        cases xs with
        | nil => exact ⟨rfl, (List.cons.inj hxs).2.symm⟩
        | cons l xs =>
          have hnil : [] = xs ++ token .comment x :: zs := (List.cons.inj hxs).2
          simp at hnil
      rw [List.nil_append, htext, textOf_nil, List.nil_append, units_blank _ rfl]
      rfl

end Lexeme

open Lexeme

/-- A newline in place of a comment takes the token of that comment out of a pattern, and leaves
the other tokens as they are. -/
theorem ofText_replace_comment {t x : Text} {before after : List Lexeme}
    (h : lexemes .pattern t = before ++ token .comment x :: after) :
    ∃ depth, (Pattern.ofText t).tokens
        = tokens .pattern 0 depth before ++ ⟨.comment, x, depth + balance before, none⟩
          :: tokens .pattern 0 (depth + balance before) after
      ∧ (Pattern.ofText (textOf before ++ '\n' :: textOf after)).tokens
        = tokens .pattern 0 depth before ++ tokens .pattern 0 (depth + balance before) after := by
  have hunits : units .pattern t
      = before.flatMap loosen ++ token .comment x :: after.flatMap loosen := by
    rw [units, h, List.flatMap_append, List.flatMap_cons]
    rfl
  have hreplaced := units_replace_comment t hunits
  rw [textOf_flatMap_loosen, textOf_flatMap_loosen] at hreplaced
  -- neither the comment nor the newline changes the depth
  have hlowest : ∀ l : Lexeme, l.isFlat = true →
      lowest 0 (before.flatMap loosen ++ l :: after.flatMap loosen)
        = lowest 0 (before.flatMap loosen ++ after.flatMap loosen) := by
    intro l hl
    rw [lowest_append, lowest_cons_flat hl, ← lowest_append]
  have hafter : ∀ (offset : Nat) (depth : Int), tokens .pattern offset (depth + 0)
      (after.flatMap loosen) = tokens .pattern 0 depth after := by
    intro offset depth
    rw [Int.add_zero, tokens_pattern_offset _ _ 0, tokens_flatMap_loosen]
  refine ⟨-lowest 0 (before.flatMap loosen ++ after.flatMap loosen), ?_, ?_⟩
  · rw [Pattern.ofText, levelled_ofText, hunits, hlowest _ rfl, tokens_pattern_append,
      tokens_flatMap_loosen, balance_flatMap_loosen, ← hafter (0 + x.length)]
    rfl
  · rw [Pattern.ofText, levelled_ofText, hreplaced, hlowest _ rfl, tokens_pattern_append,
      tokens_flatMap_loosen, balance_flatMap_loosen, ← hafter (0 + 1)]
    rfl

end Graft
