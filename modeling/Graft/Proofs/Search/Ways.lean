/-
Ways over a pattern.

A search tries places until it has moved over the whole pattern, so it succeeds if and only if
there is a way over it (`Leads`).  What is recorded on a way has no part in that, so whether
there is one is a matter of the place where it starts:

* `leads_cons`, `leads_append`, `leads_trailing`, `leads_wildcard` — a way token by token;
* `leads_congr` — the place alone counts;
* `Follows.passes`, `Leads.follows` — ways and embeddings;
* `exists_way`, `leads_of_succeeds`, `succeeds_iff_leads` — a search that succeeds.
-/
import Graft.Proofs.Search.Path

namespace Graft.Search

/-! ### Ways over a pattern -/

/-- There is a way from the place over all of the tokens. -/
def Leads (source : List Token) (length : Int) (tokens : List Token) (s : Standing) : Prop :=
  ∃ s', Passes source length [] tokens s s'

section Leads

variable {source : List Token} {length : Int} {token : Token} {tokens ahead : List Token}
  {s s' s'' : Standing}

theorem Passes.append {before : List Token}
    (h : Passes source length (tokens ++ ahead) before s s')
    (htokens : Passes source length ahead tokens s' s'') :
    Passes source length ahead (before ++ tokens) s s'' := by
  induction h with
  | nil => exact htokens
  | cons hmove _ ih =>
    rw [← List.append_assoc] at hmove
    exact .cons hmove (ih htokens)

theorem leads_cons : Leads source length (token :: tokens) s
    ↔ ∃ s', Moves source length token tokens s s' ∧ Leads source length tokens s' := by
  constructor
  · rintro ⟨s'', h⟩
    cases h with
    | cons hmove hrest =>
      rw [List.append_nil] at hmove
      exact ⟨_, hmove, s'', hrest⟩
  · rintro ⟨s', hmove, s'', hrest⟩
    exact ⟨s'', .cons (by rwa [List.append_nil]) hrest⟩

theorem leads_append {before : List Token} : Leads source length (before ++ tokens) s
    ↔ ∃ s', Passes source length tokens before s s' ∧ Leads source length tokens s' := by
  constructor
  · rintro ⟨s'', h⟩
    obtain ⟨s', hbefore, htokens⟩ := passes_append h
    rw [List.append_nil] at hbefore
    exact ⟨s', hbefore, s'', htokens⟩
  · rintro ⟨s', hbefore, s'', htokens⟩
    exact ⟨s'', Passes.append (by rwa [List.append_nil]) htokens⟩

theorem leads_trailing (hk : token.kind = .wildcard) (h0 : s.taken = 0)
    (ht : nextTarget? tokens = none) : Leads source length (token :: tokens) s
      ↔ Leads source length tokens { s with index := source.length } := by
  rw [leads_cons]
  constructor
  · rintro ⟨s', hmove, hrest⟩
    cases hmove with
    | trailing => exact hrest
    | literal hm => simp [Token.isMeta, Kind.isMeta, hk] at hm
    | _ => simp_all
  · exact fun h => ⟨_, .trailing hk h0 ht, h⟩

theorem leads_wildcard {target : Token} (hk : token.kind = .wildcard) (h0 : s.taken = 0)
    (ht : nextTarget? tokens = some target) : Leads source length (token :: tokens) s
      ↔ ∃ j, Lands source s.shift token target s.index j
        ∧ Leads source length tokens { s with index := j } := by
  rw [leads_cons]
  constructor
  · rintro ⟨s', hmove, hrest⟩
    cases hmove with
    | wildcard _ _ ht' hl =>
      obtain rfl := Option.some.inj (ht'.symm.trans ht)
      exact ⟨_, hl, hrest⟩
    | literal hm => simp [Token.isMeta, Kind.isMeta, hk] at hm
    | _ => simp_all
  · rintro ⟨j, hl, h⟩
    exact ⟨_, .wildcard hk h0 ht hl, h⟩

/-- What is recorded has no part in what can be moved over. -/
theorem Moves.remark (h : Moves source length token tokens s s') (marks : Marks) :
    ∃ marks', Moves source length token tokens { s with marks := marks }
      { s' with marks := marks' } := by
  cases h with
  | comment hk => exact ⟨marks, .comment hk⟩
  | inserter hk => exact ⟨_, .inserter hk⟩
  | folder hk => exact ⟨_, .folder hk⟩
  | trailing hk h0 ht => exact ⟨marks, .trailing hk h0 ht⟩
  | wildcard hk h0 ht hl => exact ⟨marks, .wildcard hk h0 ht hl⟩
  | fragment hk ht =>
    obtain ⟨candidate, shift, hget, hkind, htext, hshift, rfl⟩ := ht
    refine ⟨marks, .fragment hk ⟨candidate, shift, hget, hkind, htext, hshift, ?_⟩⟩
    unfold Standing.behind
    split <;> rfl
  | literal hm hk ht =>
    obtain ⟨candidate, shift, hget, h0, htext, hagree, rfl⟩ := ht
    exact ⟨marks, .literal hm hk ⟨candidate, shift, hget, h0, htext, hagree, rfl⟩⟩

theorem Leads.remark (marks : Marks) : ∀ {s : Standing}, Leads source length tokens s →
    Leads source length tokens { s with marks := marks } := by
  induction tokens generalizing marks with
  | nil => exact fun _ => ⟨_, .nil⟩
  | cons token tokens ih =>
    intro s h
    obtain ⟨s', hmove, hrest⟩ := leads_cons.mp h
    obtain ⟨marks', hmove'⟩ := hmove.remark marks
    exact leads_cons.mpr ⟨_, hmove', ih marks' hrest⟩

/-- Whether there is a way is a matter of the place alone. -/
theorem leads_congr (hindex : s.index = s'.index) (htaken : s.taken = s'.taken)
    (hshift : s.shift = s'.shift) :
    Leads source length tokens s ↔ Leads source length tokens s' := by
  obtain ⟨index, taken, shift, marks⟩ := s
  obtain ⟨index', taken', shift', marks'⟩ := s'
  obtain rfl : index = index' := hindex
  obtain rfl : taken = taken' := htaken
  obtain rfl : shift = shift' := hshift
  exact ⟨fun h => h.remark marks', fun h => h.remark marks⟩

/-- To follow a pattern is to go a way over it. -/
theorem Follows.passes {js : List Nat} {marks : Marks}
    (h : Follows source length tokens s js marks) :
    ∃ s', Passes source length [] tokens s s' ∧ s'.marks = marks := by
  have hcons : ∀ {token tokens s s' marks}, Moves source length token tokens s s' →
      (∃ s'', Passes source length [] tokens s' s'' ∧ s''.marks = marks) →
      ∃ s'', Passes source length [] (token :: tokens) s s'' ∧ s''.marks = marks := by
    rintro token tokens s s' marks hmove ⟨s'', hrest, hmarks⟩
    exact ⟨s'', .cons (by rwa [List.append_nil]) hrest, hmarks⟩
  induction h with
  | done s => exact ⟨s, .nil, rfl⟩
  | comment hk _ ih => exact hcons (.comment hk) ih
  | inserter hk _ ih => exact hcons (.inserter hk) ih
  | folder hk _ ih => exact hcons (.folder hk) ih
  | trailing hk h0 ht _ ih => exact hcons (.trailing hk h0 ht) ih
  | wildcard hk h0 ht hl _ ih => exact hcons (.wildcard hk h0 ht hl) ih
  | fragment hk ht _ ih => exact hcons (.fragment hk ht) ih
  | literal hm hk ht _ ih => exact hcons (.literal hm hk ht) ih

theorem Leads.follows : ∀ {s : Standing}, Leads source length tokens s →
    ∃ js marks, Follows source length tokens s js marks := by
  induction tokens with
  | nil => exact fun {s} _ => ⟨[], s.marks, .done s⟩
  | cons token tokens ih =>
    intro s h
    obtain ⟨s', hmove, hrest⟩ := leads_cons.mp h
    obtain ⟨js, marks, hfollows⟩ := ih hrest
    cases hmove with
    | comment hk => exact ⟨js, marks, .comment hk hfollows⟩
    | inserter hk => exact ⟨js, marks, .inserter hk hfollows⟩
    | folder hk => exact ⟨js, marks, .folder hk hfollows⟩
    | trailing hk h0 ht => exact ⟨js, marks, .trailing hk h0 ht hfollows⟩
    | wildcard hk h0 ht hl => exact ⟨_, marks, .wildcard hk h0 ht hl hfollows⟩
    | fragment hk ht => exact ⟨js, marks, .fragment hk ht hfollows⟩
    | literal hm hk ht => exact ⟨js, marks, .literal hm hk ht hfollows⟩

end Leads

/-! ### Success -/

/-- The pattern is found, even if nothing in it marks a place of insertion. -/
def Succeeds (result : Except Fault Match) : Prop :=
  (∃ found, result = .ok found) ∨ result = .error .noInserter

instance : (result : Except Fault Match) → Decidable (Succeeds result)
  | .ok found => isTrue (.inl ⟨found, rfl⟩)
  | .error fault => decidable_of_iff (fault = .noInserter) (by simp [Succeeds])

/-- A search that succeeds was not stopped. -/
theorem Succeeds.ne_overCeiling {result : Except Fault Match} (h : Succeeds result) (limit : Text)
    (ceiling : Value) : result ≠ .error (.overCeiling limit ceiling) := by
  rintro rfl
  rcases h with ⟨found, h⟩ | h
  · simp at h
  · unfold Fault.overCeiling at h
    split at h <;> simp at h

section Success

variable {settings : Settings} {source : List Token} {length : Int} {pattern : Pattern}
  {effort spent : Effort} {result : Except Fault Match}

theorem succeeds_found (marks : Marks) : Succeeds ((Verdict.found marks).result settings) := by
  obtain ⟨insertion, deletion⟩ := marks
  cases insertion with
  | none => exact .inr rfl
  | some offset => exact .inl ⟨_, rfl⟩

/-- A search within its ceilings finds a pattern that there is a way over, and its result is
what is recorded on one. -/
theorem exists_way (hrun : find settings source length pattern effort = (result, spent))
    (hall : pattern.isReplaceAll = false) (happ : pattern.isAppend = false)
    (hlimit : ∀ limit ceiling, result ≠ .error (.overCeiling limit ceiling))
    (h : Leads source length pattern.tokens (.start settings)) :
    ∃ s, Passes source length [] pattern.tokens (.start settings) s
      ∧ result = (Verdict.found s.marks).result settings := by
  obtain ⟨js, marks, hembeds⟩ : ∃ js marks, Embeds settings source length pattern js marks :=
    h.follows
  rcases find_cases hrun hall happ hlimit with ⟨token, ha, -⟩ | ⟨-, verdict, hcut, hexact, rfl⟩
  · rw [absent?_eq_none.mpr hembeds.occurs] at ha
    exact absurd ha (by simp)
  · cases verdict with
    | cutOff => exact absurd rfl hcut
    | deadEnd => exact absurd hembeds (hexact js marks)
    | found marks' =>
      obtain ⟨js', hfollows, -⟩ := hexact
      obtain ⟨s, hpasses, rfl⟩ := hfollows.passes
      exact ⟨s, hpasses, rfl⟩

/-- A search that succeeds went a way over the pattern. -/
theorem leads_of_succeeds (hrun : find settings source length pattern effort = (result, spent))
    (hall : pattern.isReplaceAll = false) (happ : pattern.isAppend = false)
    (h : Succeeds result) : Leads source length pattern.tokens (.start settings) := by
  rcases find_cases hrun hall happ h.ne_overCeiling with
    ⟨token, -, rfl⟩ | ⟨-, verdict, hcut, hexact, rfl⟩
  · simp [Succeeds] at h
  · cases verdict with
    | cutOff => exact absurd rfl hcut
    | deadEnd => simp [Succeeds, Verdict.result, Fault.exhausted] at h
    | found marks =>
      obtain ⟨js, hfollows, -⟩ := hexact
      obtain ⟨s, hpasses, -⟩ := hfollows.passes
      exact ⟨s, hpasses⟩

theorem succeeds_iff_leads (hrun : find settings source length pattern effort = (result, spent))
    (hall : pattern.isReplaceAll = false) (happ : pattern.isAppend = false)
    (hlimit : ∀ limit ceiling, result ≠ .error (.overCeiling limit ceiling)) :
    Succeeds result ↔ Leads source length pattern.tokens (.start settings) := by
  refine ⟨leads_of_succeeds hrun hall happ, fun h => ?_⟩
  obtain ⟨s, -, rfl⟩ := exists_way hrun hall happ hlimit h
  exact succeeds_found s.marks

/-- The shapes that need no search are made of markers alone. -/
theorem isMeta_of_shape (h : pattern.isReplaceAll = true ∨ pattern.isAppend = true) :
    ∀ token ∈ pattern.tokens, token.isMeta = true := by
  have hkinds : pattern.kinds = [.inserter, .wildcard, .folder]
      ∨ pattern.kinds = [.wildcard, .inserter] := by
    simpa [Pattern.isReplaceAll, Pattern.isAppend] using h
  intro token htoken
  have hkind : token.kind ∈ pattern.kinds := List.mem_map_of_mem htoken
  rw [Token.isMeta]
  rcases hkinds with hkinds | hkinds
  · rw [hkinds] at hkind
    simp only [List.mem_cons, List.not_mem_nil, or_false] at hkind
    rcases hkind with hkind | hkind | hkind <;> rw [hkind] <;> rfl
  · rw [hkinds] at hkind
    simp only [List.mem_cons, List.not_mem_nil, or_false] at hkind
    rcases hkind with hkind | hkind <;> rw [hkind] <;> rfl

/-- A search for a shape that needs none has a result. -/
theorem ok_of_shape (hrun : find settings source length pattern effort = (result, spent))
    (h : pattern.isReplaceAll = true ∨ pattern.isAppend = true) : ∃ found, result = .ok found := by
  rw [find] at hrun
  split at hrun
  · exact ⟨_, (congrArg Prod.fst hrun).symm⟩
  · rename_i hall
    rw [if_pos (h.resolve_left hall)] at hrun
    exact ⟨_, (congrArg Prod.fst hrun).symm⟩

theorem succeeds_of_shape (hrun : find settings source length pattern effort = (result, spent))
    (h : pattern.isReplaceAll = true ∨ pattern.isAppend = true) : Succeeds result :=
  .inl (ok_of_shape hrun h)

end Success

end Graft.Search
