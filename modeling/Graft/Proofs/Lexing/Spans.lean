/-
Reading a span of a text.

A span that lies in its text is read to the end, without a look at characters that are missing,
and its tokens are parts of the text, one behind the other.  They lie in the span but for one
case: in a pattern, a literal that is open at the end of the span is cut at a marker that starts
in the span and ends behind it.  This marker is then the last token.

* `Sliced` — tokens that are parts of a text between two offsets;
* `Overhangs` — lexemes that end with such a marker;
* `literalPieces_beyond`, `step_overhangs` — what stands behind a span matters for an open
  literal only;
* `lexemes_scanFrom_cases` — so a span is read like a text of its own, or its lexemes overhang;
* `between_sliced` — the tokens of a span.
-/
import Graft.Proofs.Lexing.Coverage
import Graft.Proofs.Lexing.Cuts
import Graft.Proofs.Lexing.OrderedLeaves

namespace Graft

/-! ### Parts of a text -/

/-- Tokens that are parts of a text between the offsets `place` and `stop`.  None is empty, and
each starts where the one in front of it ends, or further on; in source text it has the offset
where it starts. -/
inductive Sliced (mode : Mode) (t : Text) (stop : Nat) : Nat → List Token → Prop where
  | nil {place : Nat} : Sliced mode t stop place []
  | cons {place start : Nat} {token : Token} {tokens : List Token} (hplace : place ≤ start)
      (hne : token.text ≠ []) (hcut : token.text = t.between start ↑(start + token.text.length))
      (hstop : start + token.text.length ≤ stop) (hoffset : token.offset = mode.offsetAt start)
      (h : Sliced mode t stop (start + token.text.length) tokens) :
      Sliced mode t stop place (token :: tokens)

section Sliced

variable {mode : Mode} {t : Text} {place stop : Nat} {tokens : List Token}

theorem Sliced.widen {place' stop' : Nat} (h : Sliced mode t stop place tokens)
    (hplace : place' ≤ place) (hstop : stop ≤ stop') : Sliced mode t stop' place' tokens := by
  induction h generalizing place' with
  | nil => exact .nil
  | cons hle hne hcut hlast hoffset _ ih =>
    exact .cons (Nat.le_trans hplace hle) hne hcut (Nat.le_trans hlast hstop) hoffset
      (ih (Nat.le_refl _))

/-- The characters of the tokens are characters of the text between the two offsets, in the same
order. -/
theorem Sliced.sublist (h : Sliced mode t stop place tokens) :
    (tokens.flatMap (·.text)).Sublist (t.between place stop) := by
  induction h with
  | nil => exact List.nil_sublist _
  | @cons place start token tokens hplace _ hcut hstop _ _ ih =>
    have hsplit : t.between start stop
        = token.text ++ t.between ↑(start + token.text.length) stop := by
      rw [Text.between_natCast] at hcut
      rw [Text.between_natCast, Text.between_natCast]
      calc (t.take stop).drop start
          = ((t.take stop).drop start).take token.text.length
            ++ ((t.take stop).drop start).drop token.text.length :=
            (List.take_append_drop _ _).symm
        _ = token.text ++ (t.take stop).drop (start + token.text.length) := by
            rw [List.take_drop, List.take_take, Nat.min_eq_left hstop, ← hcut, List.drop_drop]
    rw [List.flatMap_cons]
    refine List.Sublist.trans (List.Sublist.append_left ih _) ?_
    rw [← hsplit, Text.between_natCast, Text.between_natCast]
    exact List.drop_sublist_drop_left _ hplace

end Sliced

namespace Lexeme

theorem token?_eq_some {mode : Mode} {offset : Nat} {depth : Int} {l : Lexeme} {token : Token}
    (h : token? mode offset depth l = some token) :
    token.text = l.text ∧ token.offset = mode.offsetAt offset := by
  cases l with
  | blank run => simp [token?] at h
  | token kind x =>
    cases mode with
    | pattern =>
      obtain rfl := Option.some.inj h
      exact ⟨rfl, rfl⟩
    | source =>
      simp only [token?] at h
      split at h
      · simp at h
      · obtain rfl := Option.some.inj h
        exact ⟨rfl, rfl⟩

/-- Lexemes make tokens that are parts of their text, wherever it stands. -/
theorem sliced_tokens {mode : Mode} {ls : List Lexeme} (hls : ∀ l ∈ ls, Written l) :
    ∀ (a c : Text) (depth : Int), Sliced mode (a ++ (textOf ls ++ c))
      (a.length + (textOf ls).length) a.length (tokens mode a.length depth ls) := by
  induction ls with
  | nil => exact fun _ _ _ => .nil
  | cons l ls ih =>
    intro a c depth
    have hl : l.text ≠ [] := (hls l (by simp)).text_ne_nil
    have hrest := ih (fun l hl => hls l (by simp [hl])) (a ++ l.text) c (depth + l.lift)
    rw [List.length_append, List.append_assoc, Nat.add_assoc, ← List.length_append,
      ← List.append_assoc l.text] at hrest
    rw [tokens, textOf_cons]
    cases htoken : token? mode a.length depth l with
    | none => exact hrest.widen (Nat.le_add_right _ _) (Nat.le_refl _)
    | some token =>
      obtain ⟨htext, hoffset⟩ := token?_eq_some htoken
      refine .cons (Nat.le_refl _) (by rwa [htext]) ?_ ?_ hoffset (by rwa [htext])
      · rw [htext, Int.natCast_add, List.append_assoc, ← List.append_assoc a, Text.between_append]
      · rw [htext, List.length_append]
        omega

/-- A pattern loses nothing but blanks. -/
theorem count_tokens {ls : List Lexeme} (hls : ∀ l ∈ ls, Written l) {c : Char}
    (hc : Text.isBlank c = false) : ∀ (offset : Nat) (depth : Int),
      ((tokens .pattern offset depth ls).flatMap (·.text)).count c = (textOf ls).count c := by
  induction ls with
  | nil => exact fun _ _ => rfl
  | cons l ls ih =>
    intro offset depth
    have hrest := ih (fun l hl => hls l (by simp [hl]))
    rw [textOf_cons, List.count_append]
    cases hls l (by simp) with
    | @blank run _ hrun =>
      have hnot : (blank run).text.count c = 0 :=
        List.count_eq_zero.mpr fun hmem => by simp [hrun c hmem] at hc
      rw [hnot, Nat.zero_add]
      exact hrest _ _
    | _ =>
      rw [tokens_pattern_cons, List.flatMap_cons, List.count_append, hrest]
      rfl

/-! ### A marker over the end of a span -/

/-- Lexemes of a text, the last of which is a marker that ends behind it: the text goes on with
`beyond`, and `excess` is what the marker takes of that. -/
inductive Overhangs (beyond t : Text) : List Lexeme → Prop where
  | intro {front : List Lexeme} {kind : Kind} {excess : Text} (hfront : ∀ l ∈ front, Written l)
      (hkind : kind = .inserter ∨ kind = .folder) (hne : excess ≠ []) (hover : excess <+: beyond)
      (hlength : excess.length < kind.marker.length)
      (htext : textOf front ++ kind.marker = t ++ excess) :
      Overhangs beyond t (front ++ [token kind kind.marker])

theorem length_marker {kind : Kind} (hkind : kind = .inserter ∨ kind = .folder) :
    kind.marker.length = 3 := by
  rcases hkind with rfl | rfl <;> rfl

/-- A part at the end that is not longer than the marker has no quote and no blank. -/
theorem marker_plain {kind : Kind} (hkind : kind = .inserter ∨ kind = .folder) {x y excess : Text}
    (htext : x ++ kind.marker = y ++ excess) (hlength : excess.length ≤ kind.marker.length)
    {c : Char} (hc : c ∈ excess) : isQuote c = false ∧ Text.isBlank c = false := by
  have hsuffix : excess <:+ kind.marker :=
    List.suffix_of_suffix_length_le ⟨y, htext.symm⟩ (List.suffix_append _ _) hlength
  have hbracket : ∀ d ∈ kind.marker, d = '>' ∨ d = '<' := by
    rcases hkind with rfl | rfl <;> simp [Kind.marker]
  rcases hbracket c (hsuffix.subset hc) with rfl | rfl
  · exact ⟨by decide, by decide⟩
  · exact ⟨by decide, by decide⟩

section Overhangs

variable {beyond t : Text} {ls : List Lexeme}

theorem Overhangs.append {xs : List Lexeme} (hxs : ∀ l ∈ xs, Written l)
    (h : Overhangs beyond t ls) : Overhangs beyond (textOf xs ++ t) (xs ++ ls) := by
  cases h with
  | intro hfront hkind hne hover hlength htext =>
    rw [← List.append_assoc]
    refine .intro ?_ hkind hne hover hlength (by rw [textOf_append, List.append_assoc, htext,
      List.append_assoc])
    intro l hl
    exact (List.mem_append.mp hl).elim (hxs l) (hfront l)

theorem Overhangs.written (h : Overhangs beyond t ls) : ∀ l ∈ ls, Written l := by
  cases h with
  | intro hfront hkind =>
    intro l hl
    rcases List.mem_append.mp hl with hl | hl
    · exact hfront l hl
    · rw [List.mem_singleton.mp hl]
      exact .marker (by rcases hkind with rfl | rfl <;> decide)

/-- The marker starts in the text, so the text does not end with a quote. -/
theorem Overhangs.getLast?_ne {q : Char} (hq : isQuote q = true) (h : Overhangs beyond t ls) :
    t.getLast? ≠ some q := by
  cases h with
  | @intro front kind excess _ hkind _ _ hlength htext =>
    intro hlast
    obtain ⟨x, rfl⟩ := List.getLast?_eq_some_iff.mp hlast
    rw [List.append_assoc] at htext
    have hplain := (marker_plain hkind htext (by simp; omega) (List.mem_cons_self ..)).1
    rw [hq] at hplain
    exact absurd hplain (by simp)

theorem literalMarker?_iff {x : Text} {kind : Kind} : literalMarker? x = some kind
    ↔ (kind = .inserter ∨ kind = .folder) ∧ kind.marker <+: x := by
  constructor
  · intro h
    have hmarker := literalMarker?_eq_some h
    refine ⟨?_, _, (marker?_eq_some hmarker).2.symm⟩
    rw [literalMarker?, hmarker] at h
    cases kind <;> simp_all
  · rintro ⟨rfl | rfl, y, rfl⟩ <;> rfl

theorem Pieces.text_after (cs : Text) (pieces : Pieces) :
    (pieces.after cs).text = cs ++ pieces.text := List.append_assoc ..

theorem Pieces.text_behind (kind : Kind) (pieces : Pieces) :
    (pieces.behind kind).text = kind.marker ++ pieces.text := by
  simp [Pieces.text, Pieces.behind]

/-- What is read of an open literal in a pattern does not depend on what follows it, or it
overhangs. -/
theorem literalPieces_beyond (beyond t : Text) :
    literalPieces beyond t = literalPieces [] t
      ∨ ∃ kind excess, (literalPieces beyond t).others.getLast? = some (kind, [])
        ∧ excess ≠ [] ∧ excess <+: beyond ∧ excess.length < kind.marker.length
        ∧ (literalPieces beyond t).text = t ++ excess := by
  fun_induction literalPieces beyond t with
  | case1 => exact .inl (by rw [literalPieces])
  | case2 c cs ih =>
    rcases ih with ih | ⟨kind, excess, hlast, hne, hover, hlength, htext⟩
    · exact .inl (by rw [literalPieces, ih])
    · refine .inr ⟨kind, excess, hlast, hne, hover, hlength, ?_⟩
      rw [Pieces.text_after, htext]
      rfl
  | case3 c cs hc kind hkind ih =>
    obtain ⟨hkinds, hstart⟩ := literalMarker?_iff.mp hkind
    by_cases hwithin : kind.marker <+: c :: cs
    · -- the whole marker stands in the text
      have hkind' : literalMarker? (c :: cs) = some kind := literalMarker?_iff.mpr ⟨hkinds, hwithin⟩
      have hsplit := (marker?_eq_some (literalMarker?_eq_some hkind')).2
      rcases ih with ih | ⟨kind', excess, hlast, hne, hover, hlength, htext⟩
      · exact .inl (by rw [literalPieces.eq_3 [] c cs hc, List.append_nil, hkind', ih])
      · refine .inr ⟨kind', excess, ?_, hne, hover, hlength, ?_⟩
        · rw [Pieces.behind, List.getLast?_cons, hlast]
          rfl
        · rw [Pieces.text_behind, htext, ← List.append_assoc]
          exact congrArg (· ++ excess) hsplit.symm
    · obtain ⟨excess, hsplit⟩ : c :: cs <+: kind.marker :=
        (List.prefix_or_prefix_of_prefix hstart (List.prefix_append _ _)).resolve_left hwithin
      have hne : excess ≠ [] := by
        rintro rfl
        exact hwithin ⟨[], by rw [← hsplit]; simp⟩
      have hlength := congrArg List.length hsplit
      rw [List.length_append, List.length_cons] at hlength
      have hthree := length_marker hkinds
      have hdrop : cs.drop 2 = [] := by
        have := List.length_pos_iff.mpr hne
        exact List.drop_eq_nil_of_le (by omega)
      refine .inr ⟨kind, excess, ?_, hne, ?_, by omega, ?_⟩
      · rw [hdrop, literalPieces]
        rfl
      · rw [← hsplit] at hstart
        exact (List.prefix_append_right_inj _).mp hstart
      · rw [Pieces.text_behind, hdrop, literalPieces, hsplit]
        exact List.append_nil _
  | case4 c cs hc hnone ih =>
    have hnone' : literalMarker? (c :: cs ++ []) = none := by
      rw [List.append_nil]
      refine Option.eq_none_iff_forall_ne_some.mpr fun kind hkind => ?_
      obtain ⟨hkinds, hstart⟩ := literalMarker?_iff.mp hkind
      have hsome := literalMarker?_iff.mpr ⟨hkinds, hstart.trans (List.prefix_append _ beyond)⟩
      rw [hnone] at hsome
      exact absurd hsome (by simp)
    rcases ih with ih | ⟨kind, excess, hlast, hne, hover, hlength, htext⟩
    · exact .inl (by rw [literalPieces.eq_3 [] c cs hc, hnone', ih])
    · refine .inr ⟨kind, excess, hlast, hne, hover, hlength, ?_⟩
      rw [Pieces.text_after, htext]
      rfl

/-- A marker with nothing behind it is the last lexeme of its literal. -/
theorem exists_fragments_eq {kind : Kind} {others : List (Kind × Text)}
    (h : others.getLast? = some (kind, [])) : ∀ piece : Text,
    ∃ front, fragments true piece others = front ++ [token kind kind.marker] := by
  induction others with
  | nil => simp at h
  | cons p others ih =>
    intro piece
    cases others with
    | nil =>
      obtain rfl : p = (kind, []) := by simpa using h
      exact ⟨fragment piece, rfl⟩
    | cons p' others =>
      obtain ⟨front, hfront⟩ := ih (by simpa using h) p.2
      refine ⟨fragment piece ++ token p.1 p.1.marker :: front, ?_⟩
      rw [fragments, hfront, List.append_assoc]
      rfl

theorem literalLexemes_beyond (beyond x : Text) :
    literalLexemes .pattern beyond true x = literalLexemes .pattern [] true x
      ∨ Overhangs beyond x (literalLexemes .pattern beyond true x) := by
  have hcases := literalPieces_beyond beyond x
  have hmarkers := literalPieces_markers beyond x
  have hkinds := literalPieces_kinds beyond x
  unfold literalLexemes
  rcases hcases with heq | ⟨kind, excess, hlast, hne, hover, hlength, htext⟩
  · exact .inl (by rw [heq])
  right
  generalize literalPieces beyond x = pieces at *
  obtain ⟨first, others⟩ := pieces
  obtain ⟨front, hfront⟩ := exists_fragments_eq hlast first
  have hwritten := written_fragments others hmarkers first
  have hfragments := (textOf_fragments others first).trans htext
  rw [hfront, textOf_append] at hfragments
  rw [hfront] at hwritten
  cases others with
  | nil => simp at hlast
  | cons p others =>
    show Overhangs beyond x (fragments true first (p :: others))
    rw [hfront]
    refine .intro (fun l hl => hwritten l (by simp [hl])) ?_ hne hover hlength ?_
    · exact hkinds _ (List.mem_of_getLast? hlast)
    · simpa [text] using hfragments

end Overhangs

/-! ### Reading a span -/

/-- A step does not depend on what stands behind the span, but for an open literal of a pattern. -/
theorem step_overhangs (mode : Mode) (beyond : Text) (c : Char) (cs : Text) :
    step mode beyond 0 c cs = step mode [] 0 c cs
      ∨ mode = .pattern
        ∧ ∃ ls, step mode beyond 0 c cs = .last ls ∧ Overhangs beyond (c :: cs) ls := by
  cases mode with
  | source => exact .inl (step_beyond beyond 0 c cs)
  | pattern =>
    by_cases hquote : isQuote c = true
    · rw [step_quote hquote, step_quote hquote, literalStep, literalStep]
      dsimp only
      have hcases := literalLexemes_beyond beyond (c :: (literalTail c cs).body)
      cases hend : (literalTail c cs).ending with
      | closed =>
        have hparts : literalTail c cs
            = ⟨(literalTail c cs).body, (literalTail c cs).rest, .closed⟩ := by rw [← hend]
        have hlast : (c :: (literalTail c cs).body).getLast? = some c := by
          rw [List.getLast?_cons, literalTail_getLast hparts]
          rfl
        exact .inl (by rw [hcases.resolve_right fun h => h.getLast?_ne hquote hlast])
      | unclosed | dangling =>
        rw [literalTail_open (by simp [hend])] at hcases ⊢
        exact hcases.imp (fun h => by rw [h]; rfl) fun h => ⟨rfl, _, rfl, h⟩
    · exact .inl (by simp only [step, hquote]; rfl)

/-- The lexemes of a span are those of its own text, or they overhang. -/
theorem lexemes_scanFrom_cases (mode : Mode) (beyond t : Text) :
    (scanFrom mode beyond 0 t).lexemes = lexemes mode t
      ∨ mode = .pattern ∧ Overhangs beyond t (scanFrom mode beyond 0 t).lexemes := by
  fun_induction scanFrom mode beyond 0 t with
  | case1 => exact .inl (lexemes_nil mode).symm
  | case2 c cs ls rest h scan ih =>
    rcases step_overhangs mode beyond c cs with hstep | ⟨-, ls', hstep, -⟩
    · have hadvance : advance mode c cs = (ls, rest) := advance_of_next (hstep.symm.trans h)
      obtain ⟨hwritten, htext⟩ := advance_written mode c cs
      rw [hadvance] at hwritten htext
      refine ih.imp (fun ih => ?_) (And.imp_right fun ih => ?_)
      · rw [lexemes_cons, hadvance, ← ih]
      · rw [← htext]
        exact ih.append hwritten
    · rw [h] at hstep
      simp at hstep
  | case3 c cs ls h =>
    refine (step_overhangs mode beyond c cs).imp (fun hstep => ?_) (And.imp_right ?_)
    · rw [lexemes_cons, advance_of_last (hstep.symm.trans h), lexemes_nil, List.append_nil]
    · rintro ⟨ls', hstep, hover⟩
      obtain rfl : ls = ls' := Step.last.inj (h.symm.trans hstep)
      exact hover
  | case4 c cs ls h => exact absurd h (step_ne_past c cs ls)

section Tokens

variable {b c : Text} {ls : List Lexeme}

/-- The marker that overhangs is a part of the text too, and the other tokens lie in the span. -/
theorem Overhangs.exists_last (h : Overhangs c b ls) (a : Text) (depth : Int) :
    ∃ excess : Text, excess.length ≤ 2 ∧ textOf ls = b ++ excess
      ∧ Sliced .pattern (a ++ (b ++ c)) (a.length + b.length + excess.length) a.length
        (tokens .pattern a.length depth ls)
      ∧ ∃ front kind inner, (kind = .inserter ∨ kind = .folder)
        ∧ tokens .pattern a.length depth ls = front ++ [⟨kind, kind.marker, inner, none⟩]
        ∧ Sliced .pattern (a ++ (b ++ c)) (a.length + b.length) a.length front := by
  have hwritten := h.written
  cases h with
  | @intro front kind excess hfront hkind hne hover hlength htext =>
    obtain ⟨c, rfl⟩ := hover
    have hthree := length_marker hkind
    have htextOf : textOf (front ++ [token kind kind.marker]) = b ++ excess := by
      simpa [text] using htext
    refine ⟨excess, by omega, htextOf, ?_, _, kind, _, hkind,
      tokens_append .pattern front _ _ _, ?_⟩
    · have hsliced := @sliced_tokens .pattern _ hwritten a c depth
      rwa [htextOf, List.append_assoc, List.length_append, ← Nat.add_assoc] at hsliced
    · have hsliced := @sliced_tokens .pattern front hfront a (kind.marker ++ c) depth
      rw [← List.append_assoc (textOf front), htext, List.append_assoc] at hsliced
      have hlengths := congrArg List.length htext
      rw [List.length_append, List.length_append] at hlengths
      exact hsliced.widen (Nat.le_refl _) (by omega)

/-- It ends behind the span. -/
theorem Overhangs.not_sliced (h : Overhangs c b ls) (a : Text) (depth : Int) :
    ¬ Sliced .pattern (a ++ (b ++ c)) (a.length + b.length) a.length
      (tokens .pattern a.length depth ls) := by
  intro hsliced
  have hwritten := h.written
  cases h with
  | @intro front kind excess _ hkind hne _ hlength htext =>
    -- the first character that is read behind the span is no blank, so it is read once too often
    obtain ⟨d, excess, rfl⟩ := List.exists_cons_of_ne_nil hne
    have hblank := (marker_plain hkind htext (Nat.le_of_lt hlength) (List.mem_cons_self ..)).2
    have hle := hsliced.sublist.count_le d
    rw [count_tokens hwritten hblank, Int.natCast_add, ← List.append_assoc, Text.between_append,
      textOf_append] at hle
    have hcount := congrArg (List.count d) htext
    simp only [List.count_append, List.count_cons_self, textOf_cons, textOf_nil, text,
      List.append_nil] at hle hcount
    omega

end Tokens

end Lexeme

open Lexeme

/-- A span of a text is read to its end, and its tokens are parts of the text, one behind the
other.  Behind the span at most two characters are read, of a marker that cuts an open literal
and that is the last token; the tokens stay in the span exactly if it is read as it would be at
the end of a text. -/
theorem between_sliced (mode : Mode) (t : Text) (depth : Int) {start stop : Nat}
    (hle : start ≤ stop) (hstop : stop ≤ t.length) :
    (Reading.between mode t depth start stop).past = false
      ∧ (∃ excess : Text,
        textOf (scan mode (.ofSpan t start stop)).lexemes = t.between start stop ++ excess
          ∧ Sliced mode t (stop + excess.length) start
            (Reading.between mode t depth start stop).tokens
          ∧ (excess ≠ [] → mode = .pattern ∧ excess.length ≤ 2
            ∧ ∃ front kind inner, (kind = .inserter ∨ kind = .folder)
              ∧ (Reading.between mode t depth start stop).tokens
                = front ++ [⟨kind, kind.marker, inner, none⟩]
              ∧ Sliced mode t stop start front))
      ∧ (Sliced mode t stop start (Reading.between mode t depth start stop).tokens
        ↔ Reading.between mode t depth start stop
          = Reading.between mode (t.take stop) depth start stop) := by
  obtain ⟨a, b, c, rfl, rfl, rfl⟩ := Text.exists_parts hle hstop
  have hspan : (a ++ (b ++ c)).between a.length ↑(a.length + b.length) = b := by
    rw [← List.append_assoc, Int.natCast_add, Text.between_append]
  have htake : (a ++ (b ++ c)).take (a.length + b.length) = a ++ (b ++ []) := by
    rw [List.take_length_add_append, List.take_left, List.append_nil]
  have hown : Sliced mode (a ++ (b ++ c)) (a.length + b.length) a.length
      (tokens mode a.length depth (lexemes mode b)) := by
    have h := @sliced_tokens mode (lexemes mode b) (fun _ => written_of_mem_lexemes) a c depth
    rwa [textOf_lexemes] at h
  rw [htake, between_parts, between_parts, ofSpan_parts, scan, hspan]
  dsimp only
  refine ⟨rfl, ?_, fun h => ?_, fun h => ?_⟩
  · rcases lexemes_scanFrom_cases mode c b with hlexemes | ⟨rfl, hover⟩
    · rw [hlexemes]
      exact ⟨[], by rw [textOf_lexemes, List.append_nil], hown, fun h => absurd rfl h⟩
    · obtain ⟨excess, hlength, htext, hsliced, hlast⟩ := hover.exists_last a depth
      exact ⟨excess, htext, hsliced, fun _ => ⟨rfl, hlength, hlast⟩⟩
  · rcases lexemes_scanFrom_cases mode c b with hlexemes | ⟨rfl, hover⟩
    · rw [hlexemes]
      rfl
    · exact absurd h (hover.not_sliced a depth)
  · rw [(Reading.mk.inj h).1]
    exact hown

/-- A span that ends right behind a marker in a literal. -/
theorem between_sliced_open_literal :
    2 ≤ 7 ∧ 7 ≤ "f(\"a>>>b\")".toList.length
      ∧ Reading.between .pattern "f(\"a>>>b\")".toList 0 2 7
        = ⟨[⟨.stringFragment, "\"a".toList, 0, none⟩, ⟨.inserter, ">>>".toList, 0, none⟩], 0, false⟩
      ∧ Sliced .pattern "f(\"a>>>b\")".toList 7 2
        (Reading.between .pattern "f(\"a>>>b\")".toList 0 2 7).tokens :=
  ⟨by decide, by decide, by decide +kernel,
    (between_sliced .pattern _ 0 (by decide) (by decide)).2.2.mpr (by decide +kernel)⟩

/-- A span that ends in a marker in a literal. -/
theorem not_sliced_marker :
    0 ≤ 3 ∧ 3 ≤ "\"a>>>b\"".toList.length
      ∧ (Reading.between .pattern "\"a>>>b\"".toList 0 0 3).tokens
        = [⟨.stringFragment, "\"a".toList, 0, none⟩, ⟨.inserter, ">>>".toList, 0, none⟩]
      ∧ ¬ Sliced .pattern "\"a>>>b\"".toList 3 0
        (Reading.between .pattern "\"a>>>b\"".toList 0 0 3).tokens := by
  have htokens : (Reading.between .pattern "\"a>>>b\"".toList 0 0 3).tokens
      = [⟨.stringFragment, "\"a".toList, 0, none⟩, ⟨.inserter, ">>>".toList, 0, none⟩] := by
    decide +kernel
  refine ⟨by decide, by decide, htokens, fun h => ?_⟩
  rw [htokens] at h
  exact absurd h.sublist.length_le (by decide)

end Graft
