/-
Excerpts of a source are found at any depth.

A pattern that is an excerpt of the source text has the tokens that the excerpt has in the
source, all of them deeper or shallower by the same amount.  Where depths are relative this
amount is learned at the first token, so the wildcard in front of the pattern can land on
the excerpt, and a search that tries all landings finds the pattern there or earlier:

* `follows_stretch` — a stretch of the source can be followed, whatever its depth;
* `exists_landing` — where the wildcard in front of the excerpt lands;
* `find_of_embeds` — a pattern that can be embedded is found;
* `pattern_excerpt` — the tokens of the pattern;
* `find_excerpt` — the excerpt is found.
-/
import Graft.Proofs.Lexing.Depth
import Graft.Proofs.Lexing.Markers
import Graft.Proofs.Search.Exactness

namespace Graft

open Lexeme

namespace Search

section Stretch

variable {source : List Token} {delta : Int}

/-- The place is at the start of a token, and the shift is `delta` if it is known. -/
structure Standing.Ready (delta : Int) (s : Standing) : Prop where
  taken : s.taken = 0
  shift : ∀ d, s.shift = some d → d = delta

theorem isMeta_of_isPlain {kind : Kind} (hplain : kind.isPlain = true) (hcomment : kind ≠ .comment) :
    kind.isMeta = false ∧ kind ≠ .stringFragment := by
  cases kind <;> simp_all [Kind.isPlain, Kind.marker, Kind.isMeta]

/-- A literal takes the source token of its text that stands `delta` deeper. -/
theorem takesLiteral_of_drop (token : Token) {candidate : Token} {rest : List Token} {s : Standing}
    (hs : s.Ready delta) (hrest : source.drop s.index = candidate :: rest)
    (htext : candidate.text = token.text) (hdepth : candidate.depth = token.depth + delta) :
    TakesLiteral source token s { s with index := s.index + 1, shift := some delta } := by
  have hget : source[s.index]? = some candidate := by
    rw [← List.head?_drop, hrest]
    rfl
  exact ⟨candidate, delta, hget, hs.taken, htext, ⟨hdepth, hs.shift⟩, rfl⟩

/-- A stretch of the pattern can be followed where the source has the same stretch, `delta`
deeper. -/
theorem follows_stretch (length : Int) {back : List Token} (us : List Lexeme) :
    ∀ (s : Standing) (offset offset' : Nat) (depth : Int), s.Ready delta →
      (∀ l ∈ us, l.isPlain = true) →
      source.drop s.index = tokens .source offset' (depth + delta) us ++ back →
      ∃ s' : Standing, s'.Ready delta ∧ source.drop s'.index = back
        ∧ ∀ {more js marks}, Follows source length more s' js marks →
          Follows source length (tokens .pattern offset depth us ++ more) s js marks := by
  induction us with
  | nil =>
    intro s offset offset' depth hs _ hrest
    exact ⟨s, hs, hrest, fun h => h⟩
  | cons l us ih =>
    intro s offset offset' depth hs hplain hrest
    have hplain' : ∀ l ∈ us, l.isPlain = true := fun k hk => hplain k (List.mem_cons_of_mem _ hk)
    cases l with
    | blank run =>
      have hlift : depth + (blank run).lift = depth := Int.add_zero depth
      rw [tokens, hlift]
      refine ih s _ (offset' + run.length) depth hs hplain' ?_
      rw [hrest, tokens, Int.add_right_comm, hlift]
      rfl
    | token kind x =>
      have hkind : kind.isPlain = true := hplain _ List.mem_cons_self
      rw [tokens_pattern_cons]
      by_cases hcomment : kind = .comment
      · -- a comment is a token of the pattern alone
        subst hcomment
        rw [tokens_source_comment, Int.add_right_comm] at hrest
        obtain ⟨s', hs', hrest', hfollows⟩ := ih s (offset + x.length) _ _ hs hplain' hrest
        exact ⟨s', hs', hrest', fun h => .comment rfl (hfollows h)⟩
      · rw [tokens_source_cons hcomment, List.cons_append, Int.add_right_comm] at hrest
        obtain ⟨hmeta, hfragment⟩ := isMeta_of_isPlain hkind hcomment
        have hnext : source.drop (s.index + 1)
            = tokens .source (offset' + x.length) (depth + (token kind x).lift + delta) us
              ++ back := by
          rw [← List.tail_drop, hrest]
          rfl
        obtain ⟨s', hs', hrest', hfollows⟩ := ih { s with index := s.index + 1, shift := some delta }
          (offset + x.length) _ _ ⟨hs.taken, fun d hd => (Option.some.inj hd).symm⟩ hplain' hnext
        have htakes := takesLiteral_of_drop ⟨kind, x, depth, none⟩ hs hrest rfl rfl
        exact ⟨s', hs', hrest', fun h => .literal hmeta hfragment htakes (hfollows h)⟩

/-- The first token of a stretch of the pattern that has to be matched is the first of the same
stretch of the source, if that has any. -/
theorem nextTarget?_stretch {more : List Token} (us : List Lexeme) :
    ∀ (offset offset' : Nat) (depth depth' : Int), (∀ l ∈ us, l.isPlain = true) →
      (tokens .source offset' depth' us = []
          ∧ nextTarget? (tokens .pattern offset depth us ++ more) = nextTarget? more)
        ∨ ∃ candidate rest target, tokens .source offset' depth' us = candidate :: rest
          ∧ nextTarget? (tokens .pattern offset depth us ++ more) = some target
          ∧ Starts target candidate := by
  induction us with
  | nil => exact fun _ _ _ _ _ => .inl ⟨rfl, rfl⟩
  | cons l us ih =>
    intro offset offset' depth depth' hplain
    have hplain' : ∀ l ∈ us, l.isPlain = true := fun k hk => hplain k (List.mem_cons_of_mem _ hk)
    cases l with
    | blank run => exact ih _ _ _ _ hplain'
    | token kind x =>
      have hkind : kind.isPlain = true := hplain _ List.mem_cons_self
      by_cases hcomment : kind = .comment
      · subst hcomment
        exact ih _ _ _ _ hplain'
      · obtain ⟨hmeta, hfragment⟩ := isMeta_of_isPlain hkind hcomment
        rw [tokens_source_cons hcomment, tokens_pattern_cons, List.cons_append]
        refine .inr ⟨_, _, ⟨kind, x, depth, none⟩, rfl, ?_, ?_⟩
        · rw [nextTarget?, List.find?_cons_of_pos]
          simp [Token.isMeta, hmeta]
        · rw [Starts, if_neg hfragment]

/-- The first token that has to be matched in two stretches of the pattern, with the inserter
between them. -/
theorem nextTarget?_stretches (us vs : List Lexeme) {offset offset' : Nat} {depth depth' : Int}
    (hus : ∀ l ∈ us, l.isPlain = true) (hvs : ∀ l ∈ vs, l.isPlain = true) {inserter : Token}
    (hinserter : inserter.kind = .inserter) {p q : Nat} {d e : Int} :
    (tokens .source offset depth us ++ tokens .source offset' depth' vs = []
        ∧ nextTarget? (tokens .pattern p d us ++ inserter :: tokens .pattern q e vs) = none)
      ∨ ∃ candidate rest target,
        tokens .source offset depth us ++ tokens .source offset' depth' vs = candidate :: rest
          ∧ nextTarget? (tokens .pattern p d us ++ inserter :: tokens .pattern q e vs) = some target
          ∧ Starts target candidate := by
  have hskip : nextTarget? (inserter :: tokens .pattern q e vs)
      = nextTarget? (tokens .pattern q e vs ++ []) := by
    rw [List.append_nil, nextTarget?, List.find?_cons_of_neg (by
      simp [Token.isMeta, hinserter, Kind.isMeta])]
    rfl
  rcases @nextTarget?_stretch (inserter :: tokens .pattern q e vs) us p offset d depth hus with
    ⟨hnil, heq⟩ | ⟨candidate, rest, target, hcons, heq, hstarts⟩
  · rw [hnil, heq, hskip, List.nil_append]
    exact nextTarget?_stretch vs q offset' e depth' hvs
  · rw [hcons, heq]
    exact .inr ⟨candidate, _, target, rfl, rfl, hstarts⟩

/-- A wildcard in front of a pattern can land on the part of the source that starts as the
pattern does; if nothing has to be matched it lands at the end, where all of that part that is
left is nothing. -/
theorem exists_landing (length : Int) {front mid back tokens : List Token} {wildcard : Token}
    (hk : wildcard.kind = .wildcard) (hsource : source = front ++ (mid ++ back))
    (hmid : mid = [] ∧ nextTarget? tokens = none
      ∨ ∃ candidate rest target, mid = candidate :: rest ∧ nextTarget? tokens = some target
        ∧ Starts target candidate) :
    ∃ (s : Standing) (back' : List Token), s.taken = 0 ∧ s.shift = none
      ∧ source.drop s.index = mid ++ back'
      ∧ ∀ {js marks}, Follows source length tokens s js marks →
        ∃ js', Follows source length (wildcard :: tokens) ⟨0, 0, none, {}⟩ js' marks := by
  rcases hmid with ⟨rfl, hnone⟩ | ⟨candidate, rest, target, rfl, hsome, hstarts⟩
  · refine ⟨⟨source.length, 0, none, {}⟩, [], rfl, rfl, by simp, fun h => ?_⟩
    exact ⟨_, .trailing hk rfl hnone h⟩
  · have hdrop : source.drop front.length = candidate :: rest ++ back := by
      rw [hsource, List.drop_left]
    have hget : source[front.length]? = some candidate := by
      rw [← List.head?_drop, hdrop]
      rfl
    have hlands : Lands source none wildcard target 0 front.length :=
      ⟨Nat.zero_le _, ⟨candidate, hget, hstarts, fun d hd => absurd hd (by simp)⟩,
        fun d hd => absurd hd (by simp)⟩
    refine ⟨⟨front.length, 0, none, {}⟩, back, rfl, rfl, hdrop, fun h => ?_⟩
    exact ⟨_, .wildcard hk rfl hsome hlands h⟩

/-- Two stretches of the source that stand side by side, with the inserter between them and a
wildcard in front, can be followed from the start. -/
theorem follows_excerpt (length : Int) {us vs : List Lexeme} {front back : List Token}
    {wildcard inserter : Token} {offset offset' : Nat} {depth depth' : Int}
    (hwildcard : wildcard.kind = .wildcard) (hinserter : inserter.kind = .inserter)
    (hus : ∀ l ∈ us, l.isPlain = true) (hvs : ∀ l ∈ vs, l.isPlain = true)
    (hsource : source = front ++ (tokens .source offset (depth + delta) us
      ++ tokens .source offset' (depth' + delta) vs ++ back)) :
    ∃ js marks, Follows source length
      (wildcard :: (tokens .pattern 0 depth us ++ inserter :: tokens .pattern 0 depth' vs))
      ⟨0, 0, none, {}⟩ js marks := by
  obtain ⟨s, back', htaken, hshift, hdrop, hlanded⟩ := exists_landing length hwildcard hsource
    (nextTarget?_stretches us vs hus hvs hinserter)
  have hs : s.Ready delta := ⟨htaken, fun d hd => absurd (hshift.symm.trans hd) (by simp)⟩
  rw [List.append_assoc] at hdrop
  obtain ⟨s₁, hs₁, hdrop₁, hfirst⟩ := follows_stretch length us s 0 offset depth hs hus hdrop
  -- the inserter moves nothing
  obtain ⟨s₂, -, -, hsecond⟩ := follows_stretch length vs (s₁.inserted source length) 0 offset'
    depth' ⟨hs₁.taken, hs₁.shift⟩ hvs hdrop₁
  have hdone := hsecond (.done s₂)
  rw [List.append_nil] at hdone
  obtain ⟨js, hjs⟩ := hlanded (hfirst (.inserter hinserter hdone))
  exact ⟨js, _, hjs⟩

end Stretch

/-! ### What can be embedded is found -/

/-- A pattern with a place of insertion that can be embedded is found within the
ceilings. -/
theorem find_of_embeds {settings : Settings} {source : List Token} {length : Int}
    {pattern : Pattern} {effort spent : Effort} {result : Except Fault Match} {js : List Nat}
    {marks : Marks} (hrun : find settings source length pattern effort = (result, spent))
    (hall : pattern.isReplaceAll = false) (happ : pattern.isAppend = false)
    (hlimit : ∀ limit ceiling, result ≠ .error (.overCeiling limit ceiling))
    (hembeds : Embeds settings source length pattern js marks)
    (hinserter : pattern.hasInserter = true) : ∃ found, result = .ok found := by
  rcases find_cases hrun hall happ hlimit with ⟨token, habsent, -⟩ | ⟨-, verdict, hcut, hexact, rfl⟩
  · rw [absent?_eq_none.mpr hembeds.occurs] at habsent
    exact absurd habsent (by simp)
  · cases verdict with
    | cutOff => exact absurd rfl hcut
    | deadEnd => exact absurd hembeds (hexact js marks)
    | found marks' =>
      obtain ⟨js', hfirst⟩ := hexact
      -- the marker of the pattern has recorded something
      have hsome : marks'.insertion ≠ none := by
        intro hnone
        have hembeds' : Embeds settings source length pattern js' marks' := hfirst.1
        rw [hembeds'.insertion_eq_none_iff.mp hnone] at hinserter
        exact absurd hinserter (by decide)
      obtain ⟨insertion, deletion⟩ := marks'
      cases insertion with
      | none => exact absurd rfl hsome
      | some offset => exact ⟨⟨offset, deletion⟩, rfl⟩

end Search

/-! ### Excerpts -/

/-- The pattern of an excerpt: anything may stand in front of it, and the place of insertion lies
between its two parts. -/
def excerpt (x y : Text) : Text := "...\n".toList ++ x ++ "\n>>>\n".toList ++ y

/-- A text with two parts in its middle that are cut out between tokens. -/
structure Excerpt (a x y b : Text) : Prop where
  noMarker : ∀ marker ∈ ["...".toList, ">>>".toList, "<<<".toList],
    Text.hasInfix marker (a ++ x ++ y ++ b) = false
  /-- No literal and no comment of the text is left open. -/
  closed : Closed (a ++ x ++ y ++ b)
  start_clear : ¬ Inside (a ++ x ++ y ++ b) a.length
  middle_clear : ¬ Inside (a ++ x ++ y ++ b) (a.length + x.length)
  stop_clear : ¬ Inside (a ++ x ++ y ++ b) (a.length + x.length + y.length)

section Excerpt

variable {a x y b : Text}

theorem Excerpt.markerFree (h : Excerpt a x y b) : MarkerFree x ∧ MarkerFree y := by
  have hfree : MarkerFree (a ++ x ++ y ++ b) := markerFree_iff.mpr
    ⟨h.noMarker _ (by decide), h.noMarker _ (by decide), h.noMarker _ (by decide)⟩
  exact ⟨hfree.left.left.right, hfree.left.right⟩

/-- The parts are closed, and have the units that they have in the text. -/
theorem Excerpt.parts (h : Excerpt a x y b) : Closed x ∧ Closed y
    ∧ units .source (a ++ x ++ y ++ b)
      = units .source a ++ (units .source x ++ (units .source y ++ units .source b)) := by
  have hstart := h.start_clear
  have hmiddle := h.middle_clear
  have hstop := h.stop_clear
  rw [List.append_assoc, List.append_assoc] at hstart
  rw [List.append_assoc, ← List.length_append] at hmiddle
  rw [← List.length_append, ← List.length_append] at hstop
  have hcut₁ := units_of_not_inside hstart
  have hcut₂ := units_of_not_inside hmiddle
  have hcut₃ := units_of_not_inside hstop
  have hx := units_between hcut₁ hcut₂
  have hy := units_between (List.append_assoc (a ++ x) y b ▸ hcut₂) hcut₃
  have hclosed := h.closed
  rw [List.append_assoc, List.append_assoc, closed_append hcut₁, closed_append hx,
    closed_append hy] at hclosed
  refine ⟨hclosed.2.1, hclosed.2.2.1, ?_⟩
  rw [List.append_assoc, List.append_assoc, hcut₁, hx, hy]

theorem units_excerpt (hx : MarkerFree x ∧ Closed x) (hy : MarkerFree y ∧ Closed y) :
    units .pattern (excerpt x y) = token .wildcard Kind.wildcard.marker :: blank ['\n']
      :: (units .source x ++ blank ['\n']
        :: token .inserter Kind.inserter.marker :: blank ['\n'] :: units .source y) := by
  have htext : excerpt x y = Kind.wildcard.marker ++ '\n' :: (x ++ ['\n']
      ++ (Kind.inserter.marker ++ '\n' :: y)) := by
    have hsplit : ∀ front mid : Text, front = Kind.wildcard.marker ++ ['\n'] →
        mid = '\n' :: (Kind.inserter.marker ++ ['\n']) →
        front ++ x ++ mid ++ y = Kind.wildcard.marker ++ '\n' :: (x ++ ['\n']
          ++ (Kind.inserter.marker ++ '\n' :: y)) := by
      rintro _ _ rfl rfl
      simp
    exact hsplit _ _ (by decide) (by decide)
  have hline : units .source (x ++ ['\n']) = units .source x ++ [blank ['\n']] := by
    rw [units_append_newline hx.2, units_blank _ rfl, units_nil]
  have hclosed : Closed (x ++ ['\n']) := by
    refine (closed_append (units_append_newline hx.2 [])).mpr ⟨hx.2, closed_iff.mpr ?_⟩
    rw [units_blank _ rfl, units_nil]
    simp [isOpenLiteral, isOpenComment]
  rw [htext, units_pattern_marker (by decide), units_blank _ rfl,
    units_pattern_append _ hx.1.newline hclosed (.inr (by simp)), hline,
    units_pattern_marker (by decide), units_blank _ rfl, units_pattern_eq hy.1]
  simp

/-- The tokens of the pattern: those of the two parts, behind a wildcard and on either side of the
inserter. -/
theorem pattern_excerpt (hx : MarkerFree x ∧ Closed x) (hy : MarkerFree y ∧ Closed y) :
    ∃ depth : Int, (Pattern.ofText (excerpt x y)).tokens
      = ⟨.wildcard, Kind.wildcard.marker, depth, none⟩
        :: (tokens .pattern 0 depth (units .source x)
          ++ ⟨.inserter, Kind.inserter.marker, depth + balance (units .source x), none⟩
            :: tokens .pattern 0 (depth + balance (units .source x)) (units .source y)) := by
  have hblank : ∀ (depth : Int) (us : List Lexeme),
      tokens .pattern 0 depth (blank ['\n'] :: us) = tokens .pattern 0 depth us := by
    intro depth us
    show tokens .pattern (0 + 1) (depth + 0) us = _
    rw [Int.add_zero, tokens_pattern_offset _ _ 0]
  refine ⟨-lowest 0 (units .pattern (excerpt x y)), ?_⟩
  rw [Pattern.ofText, levelled_ofText]
  generalize -lowest 0 (units .pattern (excerpt x y)) = depth
  rw [units_excerpt hx hy, tokens_marker, tokens_pattern_append, hblank, tokens_marker]

/-- The tokens of the text, part by part. -/
theorem Excerpt.tokens_eq (h : Excerpt a x y b) : ∃ (depth : Int) (back : List Token),
    builtinTokens (a ++ x ++ y ++ b) = tokens .source 0 depth (units .source a)
      ++ (tokens .source a.length (depth + balance (units .source a)) (units .source x)
        ++ tokens .source (a.length + x.length)
          (depth + balance (units .source a) + balance (units .source x)) (units .source y)
        ++ back) := by
  obtain ⟨-, -, hunits⟩ := h.parts
  refine ⟨-lowest 0 (units .source (a ++ x ++ y ++ b)),
    tokens .source (a.length + x.length + y.length)
      (-lowest 0 (units .source (a ++ x ++ y ++ b)) + balance (units .source a)
        + balance (units .source x) + balance (units .source y)) (units .source b), ?_⟩
  rw [builtinTokens_eq]
  generalize -lowest 0 (units .source (a ++ x ++ y ++ b)) = depth
  rw [hunits, tokens_append, tokens_append, tokens_append, textOf_units, textOf_units,
    textOf_units, Nat.zero_add, List.append_assoc]

/-- The pattern of an excerpt can be embedded in the text where depths are relative. -/
theorem Excerpt.embeds (h : Excerpt a x y b) {settings : Settings}
    (hrelative : settings.relativeDepth.holds = true) (length : Int) :
    ∃ js marks, Search.Embeds settings (builtinTokens (a ++ x ++ y ++ b)) length
      (Pattern.ofText (excerpt x y)) js marks := by
  obtain ⟨hxFree, hyFree⟩ := h.markerFree
  obtain ⟨hx, hy, -⟩ := h.parts
  obtain ⟨depth, hpattern⟩ := pattern_excerpt ⟨hxFree, hx⟩ ⟨hyFree, hy⟩
  obtain ⟨depth', back, hsource⟩ := h.tokens_eq
  -- the text is deeper than the pattern by the same amount everywhere
  obtain ⟨delta, hdelta⟩ : ∃ delta, depth' + balance (units .source a) = depth + delta :=
    ⟨depth' + balance (units .source a) - depth, by omega⟩
  rw [hdelta, Int.add_right_comm depth delta] at hsource
  simp only [Search.Embeds, Search.Standing.start, if_pos hrelative, hpattern]
  exact Search.follows_excerpt length rfl rfl (fun _ => isPlain_of_mem_units)
    (fun _ => isPlain_of_mem_units) hsource

/-- **Any excerpt is found.**  Two parts of a source text that are cut out between its tokens are
found as a pattern, with the place of insertion between them, where depths are relative and the
ceilings are not reached. -/
theorem find_excerpt (h : Excerpt a x y b) {settings : Settings} {effort : Search.Effort}
    (hrelative : settings.relativeDepth.holds = true)
    (hlimit : ∀ limit ceiling, (Search.find settings (builtinTokens (a ++ x ++ y ++ b))
      (a ++ x ++ y ++ b).length (Pattern.ofText (excerpt x y)) effort).1
        ≠ .error (.overCeiling limit ceiling)) :
    ∃ found, (Search.find settings (builtinTokens (a ++ x ++ y ++ b)) (a ++ x ++ y ++ b).length
      (Pattern.ofText (excerpt x y)) effort).1 = .ok found := by
  obtain ⟨hxFree, hyFree⟩ := h.markerFree
  obtain ⟨hx, hy, -⟩ := h.parts
  obtain ⟨depth, hpattern⟩ := pattern_excerpt ⟨hxFree, hx⟩ ⟨hyFree, hy⟩
  have hinserter : (Pattern.ofText (excerpt x y)).hasInserter = true := by
    simp [Pattern.hasInserter, Pattern.kinds, hpattern]
  have hall : (Pattern.ofText (excerpt x y)).isReplaceAll = false := by
    simp [Pattern.isReplaceAll, Pattern.kinds, hpattern]
  cases happ : (Pattern.ofText (excerpt x y)).isAppend with
  | true =>
    -- an excerpt without tokens: the pattern adds to the end
    rw [Search.find, if_neg (by simp [hall]), if_pos happ]
    exact ⟨_, rfl⟩
  | false =>
    obtain ⟨js, marks, hembeds⟩ := h.embeds hrelative (a ++ x ++ y ++ b).length
    exact Search.find_of_embeds rfl hall happ hlimit hembeds hinserter

/-- The excerpt ends one block and opens the next, and a call in front of it starts as it does. -/
theorem find_excerpt_across_blocks :
    Excerpt "f \x7b\n\tg(1);\n\t".toList "g(2); // \x7d\n\x7d\n".toList "h \x7b".toList
        "\n\tk;\n\x7d\n".toList
      ∧ ∃ found, (Search.find { relativeDepth := .bool true }
          (builtinTokens "f \x7b\n\tg(1);\n\tg(2); // \x7d\n\x7d\nh \x7b\n\tk;\n\x7d\n".toList) 35
          (Pattern.ofText "...\ng(2); // \x7d\n\x7d\n\n>>>\nh \x7b".toList) {}).1 = .ok found := by
  have hexcerpt : Excerpt "f \x7b\n\tg(1);\n\t".toList "g(2); // \x7d\n\x7d\n".toList
      "h \x7b".toList "\n\tk;\n\x7d\n".toList :=
    { noMarker := by decide +kernel
      closed := ⟨by decide +kernel, by decide +kernel⟩
      start_clear := by decide +kernel
      middle_clear := by decide +kernel
      stop_clear := by decide +kernel }
  have hok : (Search.find { relativeDepth := .bool true }
      (builtinTokens ("f \x7b\n\tg(1);\n\t".toList ++ "g(2); // \x7d\n\x7d\n".toList
        ++ "h \x7b".toList ++ "\n\tk;\n\x7d\n".toList)) 35
      (Pattern.ofText (excerpt "g(2); // \x7d\n\x7d\n".toList "h \x7b".toList)) {}).1.toBool
        = true := by decide +kernel
  refine ⟨hexcerpt, find_excerpt hexcerpt rfl fun limit ceiling hfault => ?_⟩
  exact absurd ((congrArg Except.toBool hfault).symm.trans hok) (by simp [Except.toBool])

end Excerpt

end Graft
