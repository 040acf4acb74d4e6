/-
The style that a match snippet asks for.

The style is read off from the lines of a snippet, and the marker that a patch is inserted at from
its lexemes.  The two agree where a line with a lone `>>>` is the first one with a `>>>` at all:
this line has the first marker, or it lies inside a comment.  A `>>>` that an earlier comment,
escape or operator hides from the lexemes still decides the style:

* `Text.IsLone` — a marker among blanks, and `trim_eq_marker_iff`, what trimming makes of it;
* `insertsOn_or_commentOver` — how the first line with a marker is read, if the marker is lone;
* `ofSnippet_eq_block_iff` — which snippets ask for a block;
* `ofSnippet_ne_lexemes` — two snippets whose style the lexemes alone would get wrong.
-/
import Graft.Proofs.Lexing.LoneMarkers
import Graft.Proofs.Splice.Inline
import Graft.Proofs.Text.LineNumbers

namespace Graft

/-- The line is an insertion marker with nothing but blanks around it. -/
def Text.IsLone (line : Text) : Prop :=
  ∃ a b, line = a ++ (Kind.inserter.marker ++ b) ∧ (∀ c ∈ a, Text.isBlank c = true)
    ∧ ∀ c ∈ b, Text.isBlank c = true

/-- No line in front of the line of this number has a marker. -/
def Text.UnmarkedBefore (t : Text) (number : Nat) : Prop :=
  ∀ earlier < number, ∀ l ∈ (lines t)[earlier]?, hasInfix Kind.inserter.marker l = false

namespace Lexeme

/-- The first insertion marker of the pattern stands on the line of this number. -/
def InsertsOn (t : Text) (number : Nat) : Prop :=
  ∃ before after, lexemes .pattern t = before ++ token .inserter Kind.inserter.marker :: after
    ∧ (∀ x, token .inserter x ∉ before) ∧ (textOf before).count '\n' = number

/-- A comment of the pattern starts in front of the line of this number, and goes on there. -/
def CommentOver (t : Text) (number : Nat) : Prop :=
  ∃ before x after, lexemes .pattern t = before ++ token .comment x :: after
    ∧ (textOf before).count '\n' < number
    ∧ number ≤ (textOf before).count '\n' + x.count '\n'

end Lexeme

open Lexeme

variable {t line : Text} {number : Nat}

/-! ### Lone markers -/

theorem Text.trim_eq_marker_iff : Text.trim line = Kind.inserter.marker ↔ line.IsLone := by
  constructor
  · intro htrim
    obtain ⟨w, hline, hw⟩ := Text.exists_trim line
    rw [htrim] at hline
    exact ⟨_, w, hline, fun c hc => forall_mem_takeWhile c hc, hw⟩
  · rintro ⟨a, b, rfl, ha, hb⟩
    have hfront : StopsAt Text.isBlank (Kind.inserter.marker ++ b) := by
      rintro c ⟨⟩
      rfl
    have hback : StopsAt Text.isBlank Kind.inserter.marker.reverse := by
      rintro c ⟨⟩
      rfl
    rw [trim, trimLeft, dropWhile_stops ha hfront, trimRight, List.reverse_append,
      dropWhile_stops (by simpa using hb) hback, List.reverse_reverse]

/-- The first line with a marker decides. -/
theorem ofSnippet_eq_block : Style.ofSnippet t = .block ↔
    ∃ number line, (Text.lines t)[number]? = some line ∧ Text.IsLone line
      ∧ Text.UnmarkedBefore t number := by
  rw [Style.ofSnippet]
  constructor
  · intro h
    split at h
    · rename_i line hfind
      split at h
      · rename_i htrim
        obtain ⟨-, number, hlt, hget, hnone⟩ := List.find?_eq_some_iff_getElem.mp hfind
        refine ⟨number, line, by rw [List.getElem?_eq_getElem hlt, hget],
          Text.trim_eq_marker_iff.mp (by simpa using htrim), fun earlier hearlier l hl => ?_⟩
        obtain ⟨_, rfl⟩ := List.getElem?_eq_some_iff.mp hl
        simpa using hnone earlier hearlier
      · simp at h
    · simp at h
  · rintro ⟨number, line, hline, hlone, hnone⟩
    obtain ⟨hlt, hget⟩ := List.getElem?_eq_some_iff.mp hline
    have hmarked : Text.hasInfix Kind.inserter.marker line = true := by
      obtain ⟨a, b, rfl, -⟩ := hlone
      exact Text.hasInfix_iff.mpr ⟨a, b, List.append_assoc _ _ _⟩
    have hfind : (Text.lines t).find? (Text.hasInfix Kind.inserter.marker) = some line := by
      refine List.find?_eq_some_iff_getElem.mpr ⟨hmarked, number, hlt, hget, fun j hj => ?_⟩
      have hj' := hnone j hj _ (List.getElem?_eq_getElem (Nat.lt_trans hj hlt))
      simp [hj']
    rw [hfind]
    simp [Text.trim_eq_marker_iff.mpr hlone]

/-! ### How the line is read -/

theorem Text.EndsLine.endsBlank {a w : Text} (ha : EndsLine a) (hw : ∀ c ∈ w, isBlank c = true) :
    EndsBlank (a ++ w) := by
  intro c hc
  rw [List.getLast?_append] at hc
  cases hlast : w.getLast? with
  | some d =>
    rw [hlast, Option.some_or] at hc
    exact hw c (Option.some.inj hc ▸ List.mem_of_getLast? hlast)
  | none =>
    rw [hlast, Option.none_or] at hc
    rcases ha with rfl | ha
    · simp at hc
    · obtain rfl : '\n' = c := Option.some.inj (ha.symm.trans hc)
      rfl

/-- Blanks behind a text make no marker. -/
theorem infix_of_append_blanks {a w : Text} (hw : ∀ c ∈ w, Text.isBlank c = true)
    (h : Kind.inserter.marker <:+: a ++ w) : Kind.inserter.marker <:+: a := by
  obtain ⟨p, q, h⟩ := h
  rcases List.append_eq_append_iff.mp h with ⟨z, rfl, -⟩ | ⟨z, hz, hsplit⟩
  · exact ⟨p, z, rfl⟩
  have hnil : z.getLast? = none := by
    -- what the blanks would have of the marker ends with it
    refine Option.eq_none_iff_forall_not_mem.mpr fun c hc => ?_
    have hblank : Text.isBlank c = true :=
      hw c (by rw [hsplit]; exact List.mem_append_left _ (List.mem_of_getLast? hc))
    have hlast := congrArg List.getLast? hz
    rw [List.getLast?_append, List.getLast?_append, Option.mem_def.mp hc] at hlast
    obtain rfl : '>' = c := Option.some.inj hlast
    exact absurd hblank (by decide)
  rw [List.getLast?_eq_none_iff.mp hnil, List.append_nil] at hz
  exact ⟨p, [], by rw [List.append_nil, hz]⟩

/-- In front of the first line with a marker there is no marker. -/
theorem not_infix_of_unmarked {a b : Text} (ha : Text.EndsLine a)
    (hnone : Text.UnmarkedBefore (a ++ b) (a.count '\n')) : ¬ Kind.inserter.marker <:+: a := by
  rintro ⟨p, q, rfl⟩
  -- the marker is followed by the newline that ends its line
  have hq : '\n' ∈ q := by
    rw [List.append_assoc] at ha
    rcases ha.right with hnil | hlast
    · simp [Kind.marker] at hnil
    · simpa [Kind.marker] using List.mem_of_getLast? hlast
  have hplain : '\n' ∉ Kind.inserter.marker ∧ '\r' ∉ Kind.inserter.marker := by decide
  obtain ⟨l, hl, hinfix⟩ := Text.exists_line_of_infix hplain.1 hplain.2 (q ++ b) p
  have hearlier : p.count '\n' < (p ++ Kind.inserter.marker ++ q).count '\n' := by
    have hpos := List.count_pos_iff.mpr hq
    simp only [List.count_append]
    omega
  have hfalse := hnone _ hearlier l (by simpa using hl)
  simp [Text.hasInfix_iff.mpr hinfix] at hfalse

/-- The first line with a marker has the first one that is read, or it lies inside a comment, if
the marker is lone. -/
theorem insertsOn_or_commentOver (hline : Text.LineAt t number line) (hlone : line.IsLone)
    (hnone : Text.UnmarkedBefore t number) : InsertsOn t number ∨ CommentOver t number := by
  obtain ⟨a, b, ht, hends, rfl, hnewline⟩ := hline
  obtain ⟨indent, w, rfl, hindent, hw⟩ := hlone
  have hflat : indent.count '\n' = 0 := List.count_eq_zero.mpr fun h => hnewline (by simp [h])
  have hplace : t = (a ++ indent) ++ (Kind.inserter.marker ++ (w ++ b)) := by simp [ht]
  rcases inserts_or_comments_behind t hplace (hends.endsBlank hindent) with
    ⟨before, after, hlexemes, htext⟩ | ⟨before, u, v, after, hlexemes, hu, -, htext⟩
  · refine .inl ⟨before, after, hlexemes, fun x hx => ?_, ?_⟩
    · -- an earlier marker would stand in front of the line
      have hmem : token .inserter x ∈ lexemes .pattern t := by simp [hlexemes, hx]
      obtain rfl := (written_of_mem_lexemes hmem).marker_eq (by decide)
      obtain ⟨p, q, rfl⟩ := List.append_of_mem hx
      have hinfix : Kind.inserter.marker <:+: a ++ indent := by
        rw [← htext, textOf_append, textOf_cons, ← List.append_assoc]
        exact ⟨textOf p, textOf q, rfl⟩
      rw [ht] at hnone
      exact not_infix_of_unmarked hends hnone (infix_of_append_blanks hindent hinfix)
    · rw [htext, List.count_append, hflat, Nat.add_zero]
  · refine .inr ⟨before, u ++ v, after, hlexemes, ?_⟩
    -- the comment starts in front of the line, whose blanks have no slash
    have hslash : '/' ∉ indent := fun h => (ne_of_isBlank (hindent _ h)).1 rfl
    have hmem : '/' ∈ u := by
      have hcomment : token .comment (u ++ v) ∈ lexemes .pattern t := by simp [hlexemes]
      obtain ⟨rest, hspells⟩ := (written_of_mem_lexemes hcomment).spells rfl (by decide)
      obtain ⟨d, ds, rfl⟩ := List.exists_cons_of_ne_nil hu
      obtain rfl : d = '/' := Option.some.inj (hspells.head_of_comment rfl)
      exact List.mem_cons_self
    rcases List.append_eq_append_iff.mp htext with ⟨z, rfl, rfl⟩ | ⟨z, -, rfl⟩
    · have hz : '\n' ∈ z := by
        rcases hends.right with rfl | hlast
        · exact absurd hmem hslash
        · exact List.mem_of_getLast? hlast
      have hpos := List.count_pos_iff.mpr hz
      simp only [List.count_append]
      omega
    · exact absurd (List.mem_append_right z hmem) hslash

/-- A snippet asks for a block if a line has nothing but a marker, and no earlier line has one.
This line has the first marker that is read, or it lies inside a comment. -/
theorem ofSnippet_eq_block_iff (t : Text) : Style.ofSnippet t = .block ↔
    ∃ number line, (Text.lines t)[number]? = some line ∧ Text.IsLone line
      ∧ Text.UnmarkedBefore t number ∧ (InsertsOn t number ∨ CommentOver t number) := by
  rw [ofSnippet_eq_block]
  constructor
  · rintro ⟨number, line, hline, hlone, hnone⟩
    exact ⟨number, line, hline, hlone, hnone,
      insertsOn_or_commentOver (Text.lineAt_of_getElem? hline) hlone hnone⟩
  · rintro ⟨number, line, hline, hlone, hnone, -⟩
    exact ⟨number, line, hline, hlone, hnone⟩

/-- Comments hide markers from the lexemes, but not from the style: the first snippet asks for no
block though the line of its first marker has nothing else, and the second one asks for a block
though no marker is read. -/
theorem ofSnippet_ne_lexemes :
    (Style.ofSnippet "// >>>\n>>>".toList = .inline
      ∧ ∃ number line, InsertsOn "// >>>\n>>>".toList number
        ∧ (Text.lines "// >>>\n>>>".toList)[number]? = some line ∧ Text.IsLone line)
    ∧ Style.ofSnippet "/*\n>>>\n*/".toList = .block
      ∧ ∀ number, ¬ InsertsOn "/*\n>>>\n*/".toList number := by
  refine ⟨⟨by decide, 1, Kind.inserter.marker, ?_, by decide, [], [], rfl, by simp, by simp⟩,
    by decide, ?_⟩
  · refine ⟨[token .comment "// >>>".toList, blank ['\n']], [], by decide +kernel, ?_, by decide⟩
    simp
  · rintro number ⟨before, after, hlexemes, -⟩
    have hcomment : lexemes .pattern "/*\n>>>\n*/".toList
        = [token .comment "/*\n>>>\n*/".toList] := by decide +kernel
    have hmem : token .inserter Kind.inserter.marker
        ∈ [token .comment "/*\n>>>\n*/".toList] := by
      rw [← hcomment, hlexemes]
      exact List.mem_append_right _ List.mem_cons_self
    exact absurd (token.inj (List.mem_singleton.mp hmem)).1 (by decide)

end Graft
