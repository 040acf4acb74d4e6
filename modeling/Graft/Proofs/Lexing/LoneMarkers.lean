/-
Insertion markers behind a blank.

Whether `>>>` is read as a marker depends on what stands in front of it: it may be part of another
operator, its first character may be escaped in a literal, and a comment hides it.  Right behind a
blank, or at the start of the text, only a comment can hide it, for no other token goes on behind a
blank but a literal, and a literal is cut at its markers:

* `literalLexemes_behind` — a literal is cut at a marker that stands behind a blank;
* `inserts_or_comments_behind` — the marker is read, or a comment goes on over it.
-/
import Graft.Proofs.Lexing.Written

namespace Graft

/-- The text is empty, or it ends with a blank. -/
def Text.EndsBlank (t : Text) : Prop := ∀ c, t.getLast? = some c → Text.isBlank c = true

theorem Text.EndsBlank.right {a b : Text} (h : EndsBlank (a ++ b)) : EndsBlank b := by
  intro c hc
  exact h c (by rw [List.getLast?_append, hc, Option.some_or])

theorem Text.EndsBlank.exists_mem {t : Text} (h : EndsBlank t) (hne : t ≠ []) :
    ∃ c ∈ t, isBlank c = true :=
  ⟨_, List.getLast_mem hne, h _ (List.getLast?_eq_some_getLast hne)⟩

namespace Lexeme

/-- The text goes on with an insertion marker behind `s`, and the marker is read as one. -/
def InsertsBehind (t s : Text) : Prop :=
  ∃ before after, lexemes .pattern t = before ++ token .inserter Kind.inserter.marker :: after
    ∧ textOf before = s

/-- A comment that starts in `s` goes on behind it. -/
def CommentsBehind (t s : Text) : Prop :=
  ∃ before u v after, lexemes .pattern t = before ++ token .comment (u ++ v) :: after
    ∧ u ≠ [] ∧ v ≠ [] ∧ textOf before ++ u = s

variable {kind : Kind} {c : Char} {s t x y cs rest : Text}

/-- Markers have no blanks in them. -/
theorem eq_nil_of_marker (hs : Text.EndsBlank s) (hmarker : kind.marker = s ++ y) : s = [] := by
  refine Decidable.byContradiction fun hne => ?_
  obtain ⟨c, hc, hblank⟩ := hs.exists_mem hne
  have hmem : c ∈ kind.marker := by simp [hmarker, hc]
  obtain ⟨-, -, -, -, hdot, hless, hgreater⟩ := ne_of_isBlank hblank
  cases kind <;> simp [Kind.marker, hdot, hless, hgreater] at hmem

theorem Spells.head_of_comment (h : Spells kind x rest) (hkind : kind = .comment) :
    x.head? = some '/' := by
  cases h with
  | lineComment | blockComment | openComment => rfl
  | single =>
    split at hkind
    · simp at hkind
    · simp at hkind
  | _ => simp at hkind

/-! ### Literals -/

theorem fragments_append (front : List (Kind × Text)) (piece : Text) (others : List (Kind × Text)) :
    ∀ first : Text, fragments true first (front ++ (kind, piece) :: others)
      = fragments true first front ++ token kind kind.marker :: fragments true piece others := by
  induction front with
  | nil => exact fun _ => rfl
  | cons p front ih =>
    intro first
    rw [List.cons_append, fragments, ih, fragments, List.append_assoc]
    rfl

theorem literalMarker?_inserter (r : Text) :
    literalMarker? (Kind.inserter.marker ++ r) = some .inserter := rfl

/-- Cutting a literal finds a marker that stands behind a blank. -/
theorem literalPieces_behind (t : Text) : ∀ {s r : Text}, t = s ++ (Kind.inserter.marker ++ r) →
    Text.EndsBlank s → ∃ front piece others,
      (literalPieces [] t).others = front ++ (.inserter, piece) :: others
        ∧ Pieces.text ⟨(literalPieces [] t).first, front⟩ = s := by
  fun_induction literalPieces [] t with
  | case1 =>
    intro s r h _
    simp [Kind.marker] at h
  | case2 c cs ih =>
    intro s r h hs
    rcases s with _ | ⟨d, _ | ⟨e, s⟩⟩
    · simp [Kind.marker] at h
    · obtain rfl : '\\' = d := (List.cons.inj h).1
      exact absurd (hs '\\' rfl) (by decide)
    · obtain ⟨rfl, rfl, hcs⟩ : '\\' = d ∧ c = e ∧ cs = s ++ (Kind.inserter.marker ++ r) := by
        simpa using h
      obtain ⟨front, piece, others, hothers, htext⟩ := ih hcs (hs.right (a := ['\\', c]))
      exact ⟨front, piece, others, hothers, congrArg (['\\', c] ++ ·) htext⟩
  | case3 c cs hescape kind hkind ih =>
    intro s r h hs
    rw [List.append_nil] at hkind
    have hsplit := (marker?_eq_some (literalMarker?_eq_some hkind)).2
    rw [List.drop_succ_cons] at hsplit
    cases s with
    | nil =>
      obtain rfl : kind = .inserter := by
        rw [h, List.nil_append, literalMarker?_inserter] at hkind
        exact (Option.some.inj hkind).symm
      exact ⟨[], _, _, rfl, rfl⟩
    | cons d s =>
      rcases List.append_eq_append_iff.mp (hsplit.symm.trans h) with ⟨s', hs', hrest⟩ | ⟨y, hy, -⟩
      · rw [hs'] at hs ⊢
        obtain ⟨front, piece, others, hothers, htext⟩ := ih hrest hs.right
        refine ⟨(kind, (literalPieces [] (cs.drop 2)).first) :: front, piece, others, ?_, ?_⟩
        · exact congrArg _ hothers
        · rw [← htext]
          simp [Pieces.text, Pieces.behind]
      · exact absurd (eq_nil_of_marker hs hy) (by simp)
  | case4 c cs hescape hnone ih =>
    intro s r h hs
    cases s with
    | nil =>
      rw [List.append_nil, h, List.nil_append, literalMarker?_inserter] at hnone
      simp at hnone
    | cons d s =>
      obtain ⟨rfl, hcs⟩ : c = d ∧ cs = s ++ (Kind.inserter.marker ++ r) := by simpa using h
      obtain ⟨front, piece, others, hothers, htext⟩ := ih hcs (hs.right (a := [c]))
      exact ⟨front, piece, others, hothers, congrArg ([c] ++ ·) htext⟩

theorem literalLexemes_behind {r : Text} (hs : Text.EndsBlank s) : ∃ before after,
    literalLexemes .pattern [] true (s ++ (Kind.inserter.marker ++ r))
      = before ++ token .inserter Kind.inserter.marker :: after ∧ textOf before = s := by
  obtain ⟨front, piece, others, hothers, htext⟩ := literalPieces_behind _ rfl hs (r := r)
  unfold literalLexemes
  generalize literalPieces [] (s ++ (Kind.inserter.marker ++ r)) = pieces at hothers htext
  obtain ⟨first, pieces⟩ := pieces
  obtain rfl : pieces = front ++ (.inserter, piece) :: others := hothers
  refine ⟨fragments true first front, fragments true piece others, ?_, ?_⟩
  · cases front with
    | nil => exact fragments_append _ _ _ _
    | cons p front => exact fragments_append _ _ _ _
  · rw [textOf_fragments, htext]

/-- A literal that reaches into a marker takes all of it. -/
theorem Spells.exists_marker {r : Text} (h : Spells .stringLiteral (s ++ y) rest) (hy : y ≠ [])
    (hs : s ≠ []) (hmarker : y ++ rest = Kind.inserter.marker ++ r) :
    ∃ r', y = Kind.inserter.marker ++ r' := by
  obtain ⟨q, s, rfl⟩ := List.exists_cons_of_ne_nil hs
  obtain ⟨hq, hclosed | ⟨-, rfl⟩⟩ := h.literal_cases rfl
  · -- it ends with a quote, and there is none in the marker
    rcases List.append_eq_append_iff.mp hmarker with ⟨z, hz, -⟩ | ⟨r', rfl, -⟩
    · have hlast : (s ++ y).getLast? = some q := literalTail_getLast hclosed
      rw [List.getLast?_append, List.getLast?_eq_some_getLast hy, Option.some_or] at hlast
      have hmem : q ∈ Kind.inserter.marker := by
        rw [hz, ← Option.some.inj hlast]
        exact List.mem_append_left _ (List.getLast_mem hy)
      obtain rfl : q = '>' := by simpa [Kind.marker] using hmem
      exact absurd hq (by decide)
    · exact ⟨r', rfl⟩
  · exact ⟨r, by simpa using hmarker⟩

/-! ### A whole text -/

theorem InsertsBehind.step (h : InsertsBehind (advance .pattern c cs).2 s) :
    InsertsBehind (c :: cs) (textOf (advance .pattern c cs).1 ++ s) := by
  obtain ⟨before, after, hlexemes, rfl⟩ := h
  refine ⟨(advance .pattern c cs).1 ++ before, after, ?_, textOf_append _ _⟩
  rw [lexemes_cons, hlexemes, List.append_assoc]

theorem CommentsBehind.step (h : CommentsBehind (advance .pattern c cs).2 s) :
    CommentsBehind (c :: cs) (textOf (advance .pattern c cs).1 ++ s) := by
  obtain ⟨before, u, v, after, hlexemes, hu, hv, rfl⟩ := h
  refine ⟨(advance .pattern c cs).1 ++ before, u, v, after, ?_, hu, hv, ?_⟩
  · rw [lexemes_cons, hlexemes, List.append_assoc]
  · rw [textOf_append, List.append_assoc]

/-- A step that takes a blank and the marker's first character behind it reads a literal or a
comment. -/
theorem inserts_or_comments_over {r : Text} (hs : Text.EndsBlank s) (hne : s ≠ []) (hy : y ≠ [])
    (htext : textOf (advance .pattern c cs).1 = s ++ y)
    (hmarker : y ++ (advance .pattern c cs).2 = Kind.inserter.marker ++ r) :
    InsertsBehind (c :: cs) s ∨ CommentsBehind (c :: cs) s := by
  obtain ⟨d, hd, hblank⟩ := hs.exists_mem hne
  by_cases hc : Text.isBlank c = true
  · -- blanks stop in front of the marker
    rw [advance_blank hc] at htext hmarker
    obtain ⟨e, y, rfl⟩ := List.exists_cons_of_ne_nil hy
    obtain rfl : e = '>' := (List.cons.inj hmarker).1
    have hmem : '>' ∈ c :: cs.takeWhile Text.isBlank := by
      have htext' : c :: cs.takeWhile Text.isBlank = s ++ '>' :: y := by simpa [text] using htext
      simp [htext']
    have hmarked : Text.isBlank '>' = true := by
      rcases List.mem_cons.mp hmem with h | h
      · rwa [h]
      · exact forall_mem_takeWhile _ h
    exact absurd hmarked (by decide)
  have hc : Text.isBlank c = false := by simpa using hc
  cases hkind : modeMarker? .pattern (c :: cs) with
  | some kind =>
    rw [advance_marker hc hkind] at htext
    have hwhole : kind.marker = s ++ y := by simpa [text] using htext
    exact absurd (eq_nil_of_marker hs hwhole) hne
  | none =>
    by_cases hquote : isQuote c = true
    · obtain ⟨x, rest, rfl, hx, hadvance⟩ := advance_literal hquote .pattern cs
      rw [hadvance] at htext hmarker
      have hliteral : c :: x = s ++ y := by rw [← (literalLexemes_written hx .pattern).2, htext]
      rw [hliteral] at hx hadvance
      obtain ⟨r', rfl⟩ := hx.exists_marker hy hne hmarker
      obtain ⟨before, after, hlexemes, hbefore⟩ := literalLexemes_behind (r := r') hs
      refine .inl ⟨before, after ++ lexemes .pattern rest, ?_, hbefore⟩
      rw [lexemes_cons, hadvance, hlexemes, List.append_assoc]
      rfl
    · obtain ⟨kind, x, rest, rfl, hx⟩ := exists_spells hc cs
      have hadvance := (advance_unmarked hc hkind hquote).trans (advance_spells hx)
      rw [hadvance] at htext
      have hwhole : c :: x = s ++ y := by simpa [text] using htext
      obtain rfl | rfl := hx.kind_of_blank (by rw [hwhole]; simp [hd]) hblank
      · refine .inr ⟨[], s, y, lexemes .pattern rest, ?_, hne, hy, rfl⟩
        rw [lexemes_cons, hadvance, hwhole]
        rfl
      · exact absurd (hx.literal_cases rfl).1 hquote

/-- A marker that stands at the start of a text or behind a blank is read as one, or a comment
goes on over it. -/
theorem inserts_or_comments_behind (t : Text) : ∀ {s r : Text},
    t = s ++ (Kind.inserter.marker ++ r) → Text.EndsBlank s →
      InsertsBehind t s ∨ CommentsBehind t s := by
  induction t using advance_induction .pattern with
  | nil =>
    intro s r h _
    simp [Kind.marker] at h
  | cons c cs ih =>
    intro s r h hs
    have hstep : ∀ s' : Text, s = textOf (advance .pattern c cs).1 ++ s' →
        (advance .pattern c cs).2 = s' ++ (Kind.inserter.marker ++ r) →
        InsertsBehind (c :: cs) s ∨ CommentsBehind (c :: cs) s := by
      rintro s' rfl hrest
      rcases ih hrest hs.right with hinserts | hcomments
      · exact .inl hinserts.step
      · exact .inr hcomments.step
    by_cases hne : s = []
    · subst hne
      obtain ⟨rfl, rfl⟩ : c = '>' ∧ cs = '>' :: '>' :: r := by simpa [Kind.marker] using h
      refine .inl ⟨[], lexemes .pattern r, ?_, rfl⟩
      rw [lexemes_cons, advance_marker (by decide) (show _ = some Kind.inserter from rfl)]
      rfl
    have htext := (advance_written .pattern c cs).2.trans h
    rcases List.append_eq_append_iff.mp htext with ⟨s', hs', hrest⟩ | ⟨y, hy, hmarker⟩
    · exact hstep s' hs' hrest
    · by_cases hnil : y = []
      · subst hnil
        exact hstep [] (by simpa using hy.symm) (by simpa using hmarker.symm)
      · exact inserts_or_comments_over hs hne hnil hy hmarker.symm

end Lexeme

end Graft
