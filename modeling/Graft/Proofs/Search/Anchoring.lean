/-
Shifts that are not known yet.

Where depths are relative a search starts without a shift and learns it from the first token
that it takes.  Until then it compares no depths and knows no end of a scope, so it can go every
way that a search with a known shift can go, and on such a way it learns that very shift:

* `Forgets` — a place with the shift that is known there, or without it;
* `Moves.forget`, `Passes.forget` — one move without the shift, and a whole way;
* `succeeds_or_cutOff` — a search that has a way, and no more wildcards than it may;
* `find_relative` — what is found at its own depth is found at some depth.
-/
import Graft.Proofs.Search.Ways

namespace Graft.Search

/-- The second place is the first one, or the same in front of a token with the shift
forgotten. -/
def Forgets (s r : Standing) : Prop := r = s ∨ s.taken = 0 ∧ r = { s with shift := none }

section Forget

variable {source : List Token} {length : Int} {token : Token} {tokens ahead : List Token}
  {s s' r : Standing}

/-- Without a shift a wildcard may land wherever it may land with one. -/
theorem Lands.forget {shift : Option Int} {wildcard target : Token} {i j : Nat}
    (h : Lands source shift wildcard target i j) : Lands source none wildcard target i j := by
  obtain ⟨candidate, hget, hstarts, -⟩ := h.lands
  exact ⟨h.ahead, ⟨candidate, hget, hstarts, by simp⟩, by simp⟩

/-- A literal tells the shift if it is not known. -/
theorem TakesLiteral.forget (h : TakesLiteral source token s s') :
    TakesLiteral source token { s with shift := none } s' := by
  obtain ⟨candidate, shift, hget, h0, htext, hdepth, rfl⟩ := h
  exact ⟨candidate, shift, hget, h0, htext, ⟨hdepth.1, by simp⟩, rfl⟩

/-- So does the first piece of a literal. -/
theorem TakesFragment.forget (h : TakesFragment source token s s') (h0 : s.taken = 0) :
    TakesFragment source token { s with shift := none } s' := by
  obtain ⟨candidate, shift, hget, hkind, htext, hshift, rfl⟩ := h
  rw [FragmentShift, if_pos h0] at hshift
  obtain ⟨d, hdepth, rfl⟩ := hshift
  refine ⟨candidate, some d, hget, hkind, htext, ?_, ?_⟩
  · rw [FragmentShift, if_pos h0]
    exact ⟨d, ⟨hdepth.1, by simp⟩, rfl⟩
  · unfold Standing.behind
    split <;> rfl

/-- A move that can be made with the shift can be made without it. -/
theorem Moves.forget (h : Moves source length token tokens s s') (hs : Forgets s r) :
    ∃ r', Moves source length token tokens r r' ∧ Forgets s' r' := by
  rcases hs with rfl | ⟨h0, rfl⟩
  · exact ⟨s', h, .inl rfl⟩
  cases h with
  | comment hk => exact ⟨_, .comment hk, .inr ⟨h0, rfl⟩⟩
  | inserter hk => exact ⟨_, .inserter hk, .inr ⟨h0, rfl⟩⟩
  | folder hk => exact ⟨_, .folder hk, .inr ⟨h0, rfl⟩⟩
  | trailing hk _ ht => exact ⟨_, .trailing hk h0 ht, .inr ⟨h0, rfl⟩⟩
  | wildcard hk _ ht hl => exact ⟨_, .wildcard hk h0 ht hl.forget, .inr ⟨h0, rfl⟩⟩
  | fragment hk ht => exact ⟨s', .fragment hk (ht.forget h0), .inl rfl⟩
  | literal hm hk ht => exact ⟨s', .literal hm hk ht.forget, .inl rfl⟩

theorem Passes.forget (h : Passes source length ahead tokens s s') :
    ∀ {r : Standing}, Forgets s r →
      ∃ r', Passes source length ahead tokens r r' ∧ Forgets s' r' := by
  induction h with
  | nil => exact fun hs => ⟨_, .nil, hs⟩
  | cons hmove _ ih =>
    intro r hs
    obtain ⟨r₁, hmove', hs₁⟩ := hmove.forget hs
    obtain ⟨r', hpasses, hs'⟩ := ih hs₁
    exact ⟨r', .cons hmove' hpasses, hs'⟩

/-- A way from a place with a known shift is one without it, too. -/
theorem Leads.forget (h : Leads source length tokens s) (h0 : s.taken = 0) :
    Leads source length tokens { s with shift := none } := by
  obtain ⟨s', hpasses⟩ := h
  obtain ⟨r', hpasses', -⟩ := hpasses.forget (.inr ⟨h0, rfl⟩)
  exact ⟨r', hpasses'⟩

end Forget

/-! ### The whole search -/

section Find

variable {settings : Settings} {source : List Token} {length : Int} {pattern : Pattern}
  {effort spent : Effort} {result : Except Fault Match}

/-- A search that has a way, and no more wildcards than it may, succeeds or is cut off. -/
theorem succeeds_or_cutOff (hrun : find settings source length pattern effort = (result, spent))
    (hall : pattern.isReplaceAll = false) (happ : pattern.isAppend = false)
    (hwildcards : ¬ settings.maxWildcards.bound < pattern.wildcardCount)
    (h : Leads source length pattern.tokens (.start settings)) :
    Succeeds result ∨ result = .error (.overCeiling stepLimit settings.maxSteps) := by
  obtain ⟨js, marks, hembeds⟩ : ∃ js marks, Embeds settings source length pattern js marks :=
    h.follows
  have hexact := search_exact source length settings.maxSteps.bound pattern.tokens
    (.start settings) effort
  rw [find, if_neg (by simp [hall]), if_neg (by simp [happ]), if_neg hwildcards,
    absent?_eq_none.mpr hembeds.occurs] at hrun
  have hresult : result = (search length settings.maxSteps.bound pattern.tokens
      ((Standing.start settings).cursor source) effort).1.result settings :=
    (congrArg Prod.fst hrun).symm
  generalize (search length settings.maxSteps.bound pattern.tokens
    ((Standing.start settings).cursor source) effort).1 = verdict at hexact hresult
  subst hresult
  cases verdict with
  | found marks => exact .inl (succeeds_found marks)
  | deadEnd => exact absurd hembeds (hexact js marks)
  | cutOff => exact .inr rfl

/-- A search that succeeds reports a missing marker if and only if the pattern has none. -/
theorem noInserter_iff (hrun : find settings source length pattern effort = (result, spent))
    (hall : pattern.isReplaceAll = false) (happ : pattern.isAppend = false) (h : Succeeds result) :
    result = .error .noInserter ↔ pattern.hasInserter = false := by
  rcases find_cases hrun hall happ h.ne_overCeiling with
    ⟨token, -, rfl⟩ | ⟨-, verdict, hcut, hexact, rfl⟩
  · simp [Succeeds] at h
  · cases verdict with
    | cutOff => exact absurd rfl hcut
    | deadEnd => simp [Succeeds, Verdict.result, Fault.exhausted] at h
    | found marks =>
      obtain ⟨js, hfollows, -⟩ := hexact
      have hembeds : Embeds settings source length pattern js marks := hfollows
      rw [← hembeds.insertion_eq_none_iff]
      obtain ⟨insertion, deletion⟩ := marks
      cases insertion <;> simp [Verdict.result]

/-- **Relative depths admit all that absolute ones do.**  If a pattern is found with absolute
depths, then with relative ones and the same ceilings it is found, too, or the search is cut off;
and it lacks a marker in the one case as in the other.  It is never a dead end. -/
theorem find_relative {relative : Value} {effort' spent' : Effort} {result' : Except Fault Match}
    (hrelative : relative.holds = true)
    (hrun : find settings source length pattern effort = (result, spent))
    (hrun' : find { settings with relativeDepth := relative } source length pattern effort'
      = (result', spent')) :
    ((∃ found, result = .ok found) →
        (∃ found, result' = .ok found)
          ∨ result' = .error (.overCeiling stepLimit settings.maxSteps))
      ∧ (result = .error .noInserter →
        result' = .error .noInserter
          ∨ result' = .error (.overCeiling stepLimit settings.maxSteps))
      ∧ (Succeeds result → result' ≠ .error .exhausted) := by
  by_cases hshape : pattern.isReplaceAll = true ∨ pattern.isAppend = true
  · -- neither of the two looks at a depth
    obtain ⟨found, rfl⟩ := ok_of_shape hrun hshape
    obtain ⟨found', rfl⟩ := ok_of_shape hrun' hshape
    exact ⟨fun _ => .inl ⟨found', rfl⟩, by simp, by simp⟩
  simp only [not_or, Bool.not_eq_true] at hshape
  obtain ⟨hall, happ⟩ := hshape
  have hstart : Standing.start { settings with relativeDepth := relative }
      = { Standing.start settings with shift := none } := by
    simp [Standing.start, hrelative]
  have hfound : Succeeds result → Succeeds result'
      ∨ result' = .error (.overCeiling stepLimit settings.maxSteps) := by
    intro h
    have hleads := (leads_of_succeeds hrun hall happ h).forget rfl
    rw [← hstart] at hleads
    have hwildcards := not_lt_of_within hrun hall happ h.ne_overCeiling
    exact (succeeds_or_cutOff hrun' hall happ hwildcards hleads :)
  refine ⟨fun hok => ?_, fun hnone => ?_, fun h hdead => ?_⟩
  · refine (hfound (.inl hok)).imp_left fun h' => h'.resolve_right fun hnone => ?_
    rw [noInserter_iff hrun' hall happ h', ← noInserter_iff hrun hall happ (.inl hok)] at hnone
    obtain ⟨found, rfl⟩ := hok
    simp at hnone
  · refine (hfound (.inr hnone)).imp_left fun h' => ?_
    rw [noInserter_iff hrun' hall happ h', ← noInserter_iff hrun hall happ (.inr hnone)]
    exact hnone
  · rcases hfound h with h' | hcut
    · subst hdead
      simp [Succeeds, Fault.exhausted] at h'
    · rw [hdead, Fault.overCeiling] at hcut
      split at hcut <;> simp [Fault.exhausted] at hcut

end Find

/-- The tokens of `{a;}a,`. -/
def twiceTokens : List Token :=
  [⟨.bracket, ['\x7b'], 0, some 0⟩, ⟨.identifier, ['a'], 1, some 1⟩, ⟨.symbol, [';'], 1, some 2⟩,
    ⟨.bracket, ['\x7d'], 1, some 3⟩, ⟨.identifier, ['a'], 0, some 4⟩, ⟨.symbol, [','], 0, some 5⟩]

/-- The pattern `... a >>> ,`. -/
def twicePattern : Pattern :=
  ⟨[⟨.wildcard, ['.', '.', '.'], 0, none⟩, ⟨.identifier, ['a'], 0, none⟩,
    ⟨.inserter, ['>', '>', '>'], 0, none⟩, ⟨.symbol, [','], 0, none⟩]⟩

/-- With relative depths the `a` in the block is tried first, with a shift of its own. -/
theorem find_relative_behind_block :
    find {} twiceTokens 6 twicePattern {} = (.ok ⟨5, none⟩, ⟨5, 1⟩)
      ∧ find { relativeDepth := .bool true } twiceTokens 6 twicePattern {}
        = (.ok ⟨5, none⟩, ⟨9, 2⟩)
      ∧ ∃ found, (find { relativeDepth := .bool true } twiceTokens 6 twicePattern {}).1
        = .ok found := by
  have hrun : find {} twiceTokens 6 twicePattern {} = (.ok ⟨5, none⟩, ⟨5, 1⟩) := rfl
  have hrun' : find { relativeDepth := .bool true } twiceTokens 6 twicePattern {}
      = (.ok ⟨5, none⟩, ⟨9, 2⟩) := rfl
  have hrelative : Value.holds (.bool true) = true := rfl
  refine ⟨hrun, hrun', ?_⟩
  rw [hrun']
  exact ((find_relative hrelative hrun hrun').1 ⟨_, rfl⟩).resolve_right (by simp)

end Graft.Search
