/-
Patterns made of source text.

Source text in which no marker occurs is read in a pattern as it is read by itself, up
to the next marker that stands on a line of its own, or to its end:

* `markerFree_iff` — no marker occurs in a text;
* `literalPieces_markerFree` — no literal of such a text is cut;
* `units_pattern_append`, `units_pattern_marker` — the units of a pattern, text by text
  and marker by marker;
* `units_pattern_eq` — a whole text;
* `tokens_marker` — the token of a marker.
-/
import Graft.Proofs.Lexing.Seams

namespace Graft

theorem Text.hasInfix_iff {needle t : Text} : hasInfix needle t = true ↔ needle <:+: t := by
  induction t with
  | nil => simp [hasInfix]
  | cons c cs ih =>
    rw [hasInfix, Bool.or_eq_true, ih, List.isPrefixOf_iff_prefix, List.infix_cons_iff]

namespace Lexeme

/-- No marker starts anywhere in the text. -/
def MarkerFree (t : Text) : Prop := ∀ s, s <:+ t → marker? s = none

theorem marker?_eq_none {s : Text} : marker? s = none ↔ ∀ kind : Kind, kind.marker <+: s →
    kind.marker = [] := by
  constructor
  · rintro h kind ⟨r, rfl⟩
    cases kind <;> first | rfl | simp [Kind.marker, marker?] at h
  · intro h
    fun_cases marker? s with
    | case1 cs => exact absurd (h .wildcard ⟨cs, rfl⟩) (by simp [Kind.marker])
    | case2 cs => exact absurd (h .inserter ⟨cs, rfl⟩) (by simp [Kind.marker])
    | case3 cs => exact absurd (h .folder ⟨cs, rfl⟩) (by simp [Kind.marker])
    | case4 => rfl

theorem marker?_eq_some {t : Text} {kind : Kind} (h : marker? t = some kind) :
    kind.marker ≠ [] ∧ t = kind.marker ++ t.drop 3 := by
  fun_cases marker? t with
  | case1 cs => obtain rfl : Kind.wildcard = kind := Option.some.inj h; exact ⟨by decide, rfl⟩
  | case2 cs => obtain rfl : Kind.inserter = kind := Option.some.inj h; exact ⟨by decide, rfl⟩
  | case3 cs => obtain rfl : Kind.folder = kind := Option.some.inj h; exact ⟨by decide, rfl⟩
  | case4 => simp [marker?] at h

theorem literalMarker?_eq_some {t : Text} {kind : Kind} (h : literalMarker? t = some kind) :
    marker? t = some kind := by
  unfold literalMarker? at h
  split at h
  · rename_i hmarker
    rw [hmarker, ← h]
  · rename_i hmarker
    rw [hmarker, ← h]
  · simp at h

/-- A text is free of markers if it has none of their spellings. -/
theorem markerFree_iff {t : Text} : MarkerFree t ↔
    Text.hasInfix Kind.wildcard.marker t = false ∧ Text.hasInfix Kind.inserter.marker t = false
      ∧ Text.hasInfix Kind.folder.marker t = false := by
  simp only [Bool.eq_false_iff, ne_eq, Text.hasInfix_iff]
  constructor
  · intro h
    have hnone : ∀ kind : Kind, kind.marker ≠ [] → ¬ kind.marker <:+: t := by
      rintro kind hkind ⟨a, b, rfl⟩
      have hsuffix : kind.marker ++ b <:+ a ++ kind.marker ++ b :=
        ⟨a, by rw [List.append_assoc]⟩
      exact hkind (marker?_eq_none.mp (h _ hsuffix) kind (List.prefix_append _ _))
    exact ⟨hnone _ (by simp [Kind.marker]), hnone _ (by simp [Kind.marker]),
      hnone _ (by simp [Kind.marker])⟩
  · rintro ⟨hwildcard, hinserter, hfolder⟩ s hs
    refine marker?_eq_none.mpr fun kind hkind => ?_
    have hwithin : kind.marker <:+: t := hkind.isInfix.trans hs.isInfix
    cases kind <;> first | rfl | exact absurd hwithin ‹_›

theorem MarkerFree.right {a b : Text} (h : MarkerFree (a ++ b)) : MarkerFree b :=
  fun s hs => h s (hs.trans (List.suffix_append a b))

theorem MarkerFree.left {a b : Text} (h : MarkerFree (a ++ b)) : MarkerFree a := by
  rintro s ⟨r, rfl⟩
  refine marker?_eq_none.mpr fun kind hkind => ?_
  exact marker?_eq_none.mp (h (s ++ b) ⟨r, by rw [List.append_assoc]⟩) kind
    (hkind.trans (List.prefix_append s b))

/-- A newline behind a text makes no marker. -/
theorem MarkerFree.newline {x : Text} (h : MarkerFree x) : MarkerFree (x ++ ['\n']) := by
  intro s hs
  rcases List.suffix_concat_iff.mp hs with rfl | ⟨t, rfl, ht⟩
  · rfl
  · refine marker?_eq_none.mpr fun kind hkind => ?_
    rcases List.prefix_concat_iff.mp hkind with heq | hkind
    · have hnewline : '\n' ∈ kind.marker := by simp [heq]
      cases kind <;> first | rfl | exact absurd hnewline (by decide)
    · exact marker?_eq_none.mp (h t ht) kind hkind

/-- No marker runs over the end of a line. -/
theorem marker?_append {s z : Text} (hs : marker? s = none) (hne : s ≠ [])
    (hend : Text.EndsLine s) : marker? (s ++ z) = none := by
  have hlast := hend.resolve_left hne
  refine marker?_eq_none.mpr fun kind hkind => ?_
  rcases Nat.le_total kind.marker.length s.length with hle | hle
  · exact marker?_eq_none.mp hs kind
      (List.prefix_of_prefix_length_le hkind (List.prefix_append s z) hle)
  · -- a marker that ends behind `s` holds the newline of `s`
    have hshort : s <+: kind.marker :=
      List.prefix_of_prefix_length_le (List.prefix_append s z) hkind hle
    have hnewline : '\n' ∈ kind.marker := hshort.subset (List.mem_of_getLast? hlast)
    cases kind <;> first | rfl | exact absurd hnewline (by decide)

/-! ### Literals -/

/-- A literal without a marker is one piece. -/
theorem literalPieces_markerFree {x : Text} (h : MarkerFree x) :
    (literalPieces [] x).others = [] := by
  fun_induction literalPieces [] x with
  | case1 => rfl
  | case2 c cs ih => exact ih (MarkerFree.right (a := ['\\', c]) h)
  | case3 c cs _ kind hkind _ =>
    rw [List.append_nil, literalMarker?, h _ (List.suffix_refl _)] at hkind
    simp at hkind
  | case4 c cs _ _ ih => exact ih (MarkerFree.right (a := [c]) h)

/-- A token that starts with a quote is a literal. -/
theorem Spells.kind_of_quote {kind : Kind} {q : Char} {cs rest : Text}
    (h : Spells kind (q :: cs) rest) (hq : isQuote q = true) : kind = .stringLiteral := by
  have hsigns := signs_plain q (mem_signs_of_isQuote hq)
  cases h with
  | literal | openLiteral => rfl
  | directive | lineComment | blockComment | openComment => exact absurd hq (by decide)
  | operator hop => simp [quote_not_operator hq] at hop
  | identifier hc => simp [hsigns.2.1] at hc
  | number hc => simp [hsigns.2.2] at hc
  | single _ hc => simp [hc] at hq

/-- A literal starts with a quote; it is closed, or nothing follows it. -/
theorem Spells.literal_cases {kind : Kind} {q : Char} {cs rest : Text}
    (h : Spells kind (q :: cs) rest) (hkind : kind = .stringLiteral) :
    isQuote q = true ∧ (literalTail q cs = ⟨cs, [], .closed⟩
      ∨ (literalTail q cs).ending ≠ .closed ∧ rest = []) := by
  cases h with
  | literal hq hcs => exact ⟨hq, .inl hcs⟩
  | openLiteral hq hcs => exact ⟨hq, .inr ⟨hcs, rfl⟩⟩
  | single =>
    split at hkind
    · simp at hkind
    · simp at hkind
  | _ => simp at hkind

/-- What is read behind a quote is the rest of the literal. -/
theorem Spells.literal_body {kind : Kind} {c : Char} {cs rest : Text}
    (h : Spells kind (c :: cs) rest) (hquote : isQuote c = true) :
    (literalTail c (cs ++ rest)).body = cs := by
  obtain ⟨-, hclosed | ⟨hopen, rfl⟩⟩ := h.literal_cases (h.kind_of_quote hquote)
  · rw [literalTail_append hclosed]
  · rw [List.append_nil, literalTail_open hopen]

theorem literalStep_pattern {q : Char} {cs : Text}
    (h : MarkerFree (q :: (literalTail q cs).body)) :
    literalStep .pattern [] 0 q cs = literalStep .source [] 0 q cs := by
  have hlexemes : ∀ complete, literalLexemes .pattern [] complete (q :: (literalTail q cs).body)
      = literalLexemes .source [] complete (q :: (literalTail q cs).body) := by
    intro complete
    have hothers := literalPieces_markerFree h
    unfold literalLexemes
    generalize literalPieces [] _ = pieces at hothers
    obtain ⟨first, others⟩ := pieces
    obtain rfl : others = [] := hothers
    rfl
  simp only [literalStep, hlexemes]

/-! ### The units of a pattern -/

/-- Where no marker stands in the way, a token is read in a pattern as in source text. -/
theorem advance_pattern {kind : Kind} {c : Char} {cs rest : Text} (h : Spells kind (c :: cs) rest)
    (hmarker : marker? (c :: (cs ++ rest)) = none) (hfree : MarkerFree (c :: cs)) :
    advance .pattern c (cs ++ rest) = ([token kind (c :: cs)], rest) := by
  rw [← advance_spells h]
  -- the modes differ in what they do with markers and with literals
  have hstep : step .pattern [] 0 c (cs ++ rest) = step .source [] 0 c (cs ++ rest) := by
    unfold step
    simp only [modeMarker?, hmarker]
    split
    · rfl
    split
    · rfl
    split
    · rename_i hquote
      refine literalStep_pattern ?_
      rwa [h.literal_body hquote]
    · rfl
  unfold advance
  rw [hstep]

/-- Text without markers is read in a pattern as it is read by itself. -/
theorem units_pattern_append {z : Text} (y : Text) : MarkerFree y → Closed y → Text.EndsLine y →
    units .pattern (y ++ z) = units .source y ++ units .pattern z := by
  induction y using text_induction with
  | nil => simp
  | blank c cs hc ih =>
    intro hfree hclosed hend
    have hunits : units .source ([c] ++ cs) = units .source [c] ++ units .source cs := by
      rw [List.singleton_append, units_blank _ hc, units_blank _ hc, units_nil]
      rfl
    rw [List.cons_append, units_blank _ hc, units_blank _ hc, List.cons_append,
      ih (MarkerFree.right (a := [c]) hfree) ((closed_append hunits).mp hclosed).2
        (Text.EndsLine.right (a := [c]) hend)]
  | token kind x rest hx ih =>
    intro hfree hclosed hend
    have hlast : units .source x = [token kind x] := by
      have h := units_spells hx.at_end
      rwa [List.append_nil, units_nil] at h
    have hunits : units .source (x ++ rest) = units .source x ++ units .source rest := by
      rw [units_spells hx, hlast, List.singleton_append]
    obtain ⟨hx', hrest⟩ := (closed_append hunits).mp hclosed
    -- the token does not end the line, so what follows it is what followed it
    have hspelt : Spells kind x (rest ++ z) := by
      cases rest with
      | cons d ds => exact hx.congr_head rfl
      | nil =>
        rw [List.append_nil] at hend
        rcases hend with hnil | hnewline
        · exact absurd hnil hx.ne_nil
        · have hmem : token kind x ∈ units .source x := by simp [hlast]
          obtain ⟨hliteral, hcomment⟩ := closed_iff.mp hx' _ hmem
          exact absurd hnewline (hx.getLast_ne_newline hliteral hcomment)
    obtain ⟨c, cs, rfl⟩ := List.exists_cons_of_ne_nil hx.ne_nil
    have hmarker : marker? (c :: (cs ++ (rest ++ z))) = none := by
      have h := marker?_append (z := z) (hfree _ (List.suffix_refl _)) (by simp) hend
      rwa [List.append_assoc, List.cons_append] at h
    rw [List.append_assoc, List.cons_append,
      units_advance (advance_pattern hspelt hmarker hfree.left),
      ih hfree.right hrest hend.right, hunits, hlast,
      List.singleton_append, List.cons_append]

/-- A whole text without markers is read alike as a pattern and as a source. -/
theorem units_pattern_eq {t : Text} (hfree : MarkerFree t) : units .pattern t = units .source t := by
  induction t using text_induction with
  | nil => simp
  | blank c cs hc ih => rw [units_blank _ hc, units_blank _ hc, ih (MarkerFree.right (a := [c]) hfree)]
  | token kind x rest hx ih =>
    rw [units_spells hx, ← ih hfree.right]
    obtain ⟨c, cs, rfl⟩ := List.exists_cons_of_ne_nil hx.ne_nil
    exact units_advance (advance_pattern hx (hfree _ (List.suffix_refl _)) hfree.left)

/-- A marker is read as such. -/
theorem units_pattern_marker {kind : Kind} (hkind : kind.marker ≠ []) (z : Text) :
    units .pattern (kind.marker ++ z) = token kind kind.marker :: units .pattern z := by
  cases kind with
  | wildcard | inserter | folder => exact units_advance rfl
  | _ => exact absurd rfl hkind

/-- A marker on a line of its own makes one token. -/
theorem tokens_marker (kind : Kind) (depth : Int) (us : List Lexeme) :
    tokens .pattern 0 depth (token kind kind.marker :: blank ['\n'] :: us)
      = ⟨kind, kind.marker, depth, none⟩ :: tokens .pattern 0 depth us := by
  have hlift : (token kind kind.marker).lift = 0 := by cases kind <;> rfl
  rw [tokens_pattern_cons, hlift, Int.add_zero, tokens_pattern_offset _ _ 0]
  show _ :: tokens .pattern (0 + 1) (depth + 0) us = _
  rw [Int.add_zero, tokens_pattern_offset _ _ 0]

end Lexeme

end Graft
