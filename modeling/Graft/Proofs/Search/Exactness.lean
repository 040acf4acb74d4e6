/-
The search finds the least embedding.

A search tries the places where a wildcard may land one after the other and keeps
the first one from which the rest of the pattern matches.  So among all embeddings
of the pattern it finds the one whose landings come first in lexicographic order,
and a dead end means that there is no embedding at all:

* `search_exact` — what a verdict says about the embeddings from a place on;
* `find_exact` — the same for a whole search: which result is given when.

Neither holds of a search that was cut off, which says nothing about the pattern.
-/
import Graft.Proofs.Search.Embedding

namespace Graft.Search

/-- The landings follow the pattern from a place on, and no others that do come before
them. -/
def FollowsFirst (source : List Token) (length : Int) (tokens : List Token) (s : Standing)
    (js : List Nat) (marks : Marks) : Prop :=
  Follows source length tokens s js marks
    ∧ ∀ js' marks', Follows source length tokens s js' marks' → ¬ List.Lex (· < ·) js' js

/-- What a verdict says about the pattern from a place on. -/
def Verdict.Exact (source : List Token) (length : Int) (tokens : List Token) (s : Standing) :
    Verdict → Prop
  | .found marks => ∃ js, FollowsFirst source length tokens s js marks
  | .deadEnd => ∀ js marks, ¬ Follows source length tokens s js marks
  | .cutOff => True

/-! ### Trying one place after the other -/

section TryEach

variable {ceiling : Int} {go : List Token → Effort → Verdict × Effort} {places : List (List Token)}

/-- A dead end is one at every place. -/
theorem tryEach_deadEnd : ∀ {effort : Effort},
    (tryEach ceiling go places effort).1 = .deadEnd →
      ∀ place ∈ places, ∃ spent, (go place spent).1 = .deadEnd := by
  induction places with
  | nil =>
    intro effort _ place hp
    simp at hp
  | cons first places ih =>
    intro effort h
    rw [tryEach] at h
    split at h
    · simp at h
    · split at h
      · rename_i hgo
        intro place hp
        rcases List.mem_cons.mp hp with rfl | hp
        · exact ⟨_, congrArg Prod.fst hgo⟩
        · exact ih h place hp
      · rename_i hne
        exact (hne _ (Prod.ext h rfl)).elim

/-- What is found is found at one place, and the places before it are dead ends. -/
theorem tryEach_found {marks : Marks} : ∀ {effort : Effort},
    (tryEach ceiling go places effort).1 = .found marks →
      ∃ before place after, places = before ++ place :: after
        ∧ (∀ x ∈ before, ∃ spent, (go x spent).1 = .deadEnd)
        ∧ ∃ spent, (go place spent).1 = .found marks := by
  induction places with
  | nil =>
    intro effort h
    simp [tryEach] at h
  | cons first places ih =>
    intro effort h
    rw [tryEach] at h
    split at h
    · simp at h
    · split at h
      · rename_i hgo
        obtain ⟨before, place, after, rfl, hdead, hfound⟩ := ih h
        refine ⟨first :: before, place, after, rfl, fun x hx => ?_, hfound⟩
        rcases List.mem_cons.mp hx with rfl | hx
        · exact ⟨_, congrArg Prod.fst hgo⟩
        · exact hdead x hx
      · exact ⟨[], first, places, rfl, fun x hx => by simp at hx, _, h⟩

end TryEach

/-! ### One token of the pattern -/

section Tokens

variable {source : List Token} {length : Int} {tokens tokens' : List Token} {s s' : Standing}

/-- A token that can be followed in one way only leaves the verdict as it is. -/
theorem Verdict.Exact.congr {verdict : Verdict}
    (h : ∀ js marks, Follows source length tokens' s' js marks
      ↔ Follows source length tokens s js marks)
    (he : verdict.Exact source length tokens s) : verdict.Exact source length tokens' s' := by
  cases verdict with
  | found marks =>
    obtain ⟨js, hjs, hleast⟩ := he
    exact ⟨js, (h js marks).mpr hjs, fun js' marks' h' => hleast js' marks' ((h js' marks').mp h')⟩
  | deadEnd => exact fun js marks hf => he js marks ((h js marks).mp hf)
  | cutOff => trivial

/-- The first place that is no dead end gives the least landings: an earlier one is a
dead end, and a later one comes behind whatever follows it. -/
theorem exact_tryEach {token target : Token} {ceiling : Int} {effort : Effort}
    {go : List Token → Effort → Verdict × Effort}
    (hk : token.kind = .wildcard) (h0 : s.taken = 0) (ht : nextTarget? tokens = some target)
    (ih : ∀ j spent,
      (go (source.drop j) spent).1.Exact source length tokens { s with index := j }) :
    (tryEach ceiling go (landings s.shift token target (source.drop s.index)) effort).1.Exact
      source length (token :: tokens) s := by
  obtain ⟨js, hjs, hsorted, hmem⟩ := landings_drop source s.shift token target s.index
  rw [hjs]
  cases hv : (tryEach ceiling go (js.map (source.drop ·)) effort).1 with
  | cutOff => trivial
  | deadEnd =>
    intro js' marks h
    obtain ⟨-, j, rest, rfl, hl, h⟩ := (follows_wildcard hk ht).mp h
    obtain ⟨spent, hdead⟩ := tryEach_deadEnd hv _ (List.mem_map_of_mem ((hmem j).mpr hl))
    have hexact := ih j spent
    rw [hdead] at hexact
    exact hexact rest marks h
  | found marks =>
    obtain ⟨before, place, after, hsplit, hdead, spent, hfound⟩ := tryEach_found hv
    obtain ⟨front, back, rfl, rfl, hback⟩ := List.map_eq_append_iff.mp hsplit
    obtain ⟨j, back, rfl, rfl, rfl⟩ := List.map_eq_cons_iff.mp hback
    have hexact := ih j spent
    rw [hfound] at hexact
    obtain ⟨rest, hrest, hleast⟩ := hexact
    have hl : Lands source s.shift token target s.index j := (hmem j).mp (by simp)
    refine ⟨j :: rest, (follows_wildcard hk ht).mpr ⟨h0, j, rest, rfl, hl, hrest⟩, ?_⟩
    intro js' marks' h'
    obtain ⟨-, j', rest', rfl, hl', h'⟩ := (follows_wildcard hk ht).mp h'
    rw [List.cons_lex_cons_iff]
    rcases List.mem_append.mp ((hmem j').mpr hl') with hj' | hj'
    · -- a place that was tried before
      obtain ⟨spent', hdead'⟩ := hdead _ (List.mem_map_of_mem hj')
      have hexact := ih j' spent'
      rw [hdead'] at hexact
      exact absurd h' (hexact rest' marks')
    · rcases List.mem_cons.mp hj' with rfl | hj'
      · -- the same place, and the rest decides
        rintro (hlt | ⟨-, hlex⟩)
        · exact Nat.lt_irrefl _ hlt
        · exact hleast rest' marks' h' hlex
      · -- a place that was not tried any more
        have hlt := (List.pairwise_cons.mp (List.pairwise_append.mp hsorted).2.1).1 j' hj'
        rintro (hlt' | ⟨rfl, -⟩)
        · exact Nat.lt_asymm hlt hlt'
        · exact Nat.lt_irrefl _ hlt

/-- A token that takes what stands at the cursor leads to one place, or to a dead end. -/
theorem exact_take {token : Token} {moved? : Option Cursor} {Takes : Standing → Prop}
    {ceiling : Int} {effort : Effort}
    (htake : ∀ moved, moved? = some moved ↔ ∃ s', Takes s' ∧ moved = s'.cursor source)
    (hunique : ∀ s₁ s₂, Takes s₁ → Takes s₂ → s₁ = s₂)
    (hfollows : ∀ js marks, Follows source length (token :: tokens) s js marks
      ↔ ∃ s', Takes s' ∧ Follows source length tokens s' js marks)
    (ih : ∀ s' spent, (search length ceiling tokens (s'.cursor source) spent).1.Exact
      source length tokens s') :
    (match moved? with
      | none => (Verdict.deadEnd, effort)
      | some moved => search length ceiling tokens moved effort).1.Exact source length
        (token :: tokens) s := by
  cases hm : moved? with
  | none =>
    intro js marks h
    obtain ⟨s', hs', -⟩ := (hfollows js marks).mp h
    rw [(htake _).mpr ⟨s', hs', rfl⟩] at hm
    exact absurd hm (by simp)
  | some moved =>
    obtain ⟨s', hs', rfl⟩ := (htake moved).mp hm
    refine (ih s' effort).congr fun js marks => ?_
    rw [hfollows]
    constructor
    · rintro ⟨s'', hs'', h⟩
      rwa [hunique s' s'' hs' hs'']
    · intro h
      exact ⟨s', hs', h⟩

end Tokens

/-- A verdict other than `cutOff` says all there is to say about the embeddings from
the place where the search starts. -/
theorem search_exact (source : List Token) (length ceiling : Int) (tokens : List Token) :
    ∀ (s : Standing) (effort : Effort),
      (search length ceiling tokens (s.cursor source) effort).1.Exact source length tokens s := by
  induction tokens with
  | nil =>
    intro s effort
    exact ⟨[], .done s, fun js' _ _ hlex => nomatch hlex⟩
  | cons token tokens ih =>
    intro s effort
    rw [search]
    split
    · -- a search that is cut off claims nothing
      trivial
    · cases hk : token.kind with
      | comment => exact (ih s _).congr fun _ _ => follows_comment hk
      | inserter =>
        dsimp only
        rw [markInsertion_cursor]
        exact (ih _ _).congr fun _ _ => follows_inserter hk
      | folder =>
        dsimp only
        rw [markDeletion_cursor]
        exact (ih _ _).congr fun _ _ => follows_folder hk
      | wildcard =>
        dsimp only
        by_cases h0 : (s.cursor source).taken = 0
        · rw [if_neg (not_not_intro h0)]
          cases ht : nextTarget? tokens with
          | none =>
            dsimp only
            rw [cursor_end]
            refine (ih _ _).congr fun js marks => ?_
            rw [follows_trailing hk ht]
            exact and_iff_right h0
          | some target => exact exact_tryEach hk h0 ht fun j spent => ih _ spent
        · -- inside a literal a wildcard cannot be met
          rw [if_pos h0]
          intro js marks h
          cases ht : nextTarget? tokens with
          | none => exact h0 ((follows_trailing hk ht).mp h).1
          | some target => exact h0 ((follows_wildcard hk ht).mp h).1
      | stringFragment =>
        exact exact_take (fun _ => takeFragment?_cursor) (fun _ _ => TakesFragment.unique)
          (fun _ _ => follows_fragment hk) ih
      | directive | stringLiteral | operator | identifier | number | bracket | symbol =>
        exact exact_take (fun _ => takeLiteral?_cursor) (fun _ _ => TakesLiteral.unique)
          (fun _ _ => follows_literal (by rw [Token.isMeta, hk]; rfl) (by rw [hk]; simp)) ih

/-! ### The whole search -/

/-- The place where a search starts: in front of the first token, at depth zero unless
depths are relative. -/
def Standing.start (settings : Settings) : Standing :=
  ⟨0, 0, if settings.relativeDepth.holds then none else some 0, {}⟩

/-- The landings are an embedding of the pattern, and its markers record the offsets. -/
def Embeds (settings : Settings) (source : List Token) (length : Int) (pattern : Pattern)
    (js : List Nat) (marks : Marks) : Prop :=
  Follows source length pattern.tokens (.start settings) js marks

/-- The landings are an embedding of the pattern, and none comes before it. -/
def EmbedsFirst (settings : Settings) (source : List Token) (length : Int) (pattern : Pattern)
    (js : List Nat) (marks : Marks) : Prop :=
  Embeds settings source length pattern js marks
    ∧ ∀ js' marks', Embeds settings source length pattern js' marks' → ¬ List.Lex (· < ·) js' js

/-- Some source token has the text of the pattern token. -/
def Occurs (source : List Token) (token : Token) : Prop :=
  ∃ candidate ∈ source, candidate.text = token.text

section Find

variable {settings : Settings} {source : List Token} {length : Int} {pattern : Pattern}
  {effort spent : Effort} {result : Except Fault Match}

theorem mem_literals {token : Token} : token ∈ pattern.literals
    ↔ token ∈ pattern.tokens ∧ token.isMeta = false ∧ token.kind ≠ .stringFragment := by
  simp [Pattern.literals]

theorem Embeds.occurs {js : List Nat} {marks : Marks}
    (h : Embeds settings source length pattern js marks) :
    ∀ token ∈ pattern.literals, Occurs source token := by
  intro token htoken
  obtain ⟨hmem, hm, hk⟩ := mem_literals.mp htoken
  exact Follows.occurs h hmem hm hk

theorem Embeds.insertion_eq_none_iff {js : List Nat} {marks : Marks}
    (h : Embeds settings source length pattern js marks) :
    marks.insertion = none ↔ pattern.hasInserter = false := by
  rw [Follows.insertion_eq_none_iff h]
  simp [Standing.start, Pattern.hasInserter, Pattern.kinds]

theorem absent?_eq_none : absent? source pattern = none
    ↔ ∀ token ∈ pattern.literals, Occurs source token := by
  simp [absent?, Occurs]

theorem absent?_eq_some {token : Token} : absent? source pattern = some token
    ↔ ∃ front back, pattern.literals = front ++ token :: back
      ∧ (∀ t ∈ front, Occurs source t) ∧ ¬ Occurs source token := by
  simp [absent?, Occurs, List.find?_eq_some_iff_append]
  grind

/-- Two first embeddings are the same, so all of them record the same. -/
theorem EmbedsFirst.exists_iff {js : List Nat} {marks : Marks}
    (h : EmbedsFirst settings source length pattern js marks) (marks' : Marks) :
    (∃ js', EmbedsFirst settings source length pattern js' marks') ↔ marks = marks' := by
  constructor
  · rintro ⟨js', h'⟩
    obtain rfl : js = js' := List.le_antisymm (h.2 js' marks' h'.1) (h'.2 js marks h.1)
    exact Follows.marks_unique h.1 h'.1
  · rintro rfl
    exact ⟨js, h⟩

/-- A search within its ceilings has no more wildcards than it may. -/
theorem not_lt_of_within (hrun : find settings source length pattern effort = (result, spent))
    (hall : pattern.isReplaceAll = false) (happ : pattern.isAppend = false)
    (hlimit : ∀ limit ceiling, result ≠ .error (.overCeiling limit ceiling)) :
    ¬ settings.maxWildcards.bound < pattern.wildcardCount := by
  intro hlt
  rw [find, if_neg (by simp [hall]), if_neg (by simp [happ]), if_pos hlt] at hrun
  exact hlimit _ _ (congrArg Prod.fst hrun).symm

/-- A search within its ceilings reports an absent literal, or what its verdict says. -/
theorem find_cases (hrun : find settings source length pattern effort = (result, spent))
    (hall : pattern.isReplaceAll = false) (happ : pattern.isAppend = false)
    (hlimit : ∀ limit ceiling, result ≠ .error (.overCeiling limit ceiling)) :
    (∃ token, absent? source pattern = some token ∧ result = .error (.tokenAbsent token))
      ∨ absent? source pattern = none ∧ ∃ verdict : Verdict, verdict ≠ .cutOff
        ∧ verdict.Exact source length pattern.tokens (.start settings)
        ∧ result = verdict.result settings := by
  rw [find, if_neg (by simp [hall]), if_neg (by simp [happ])] at hrun
  split at hrun
  · exact absurd (congrArg Prod.fst hrun).symm (hlimit _ _)
  · cases ha : absent? source pattern with
    | some token =>
      rw [ha] at hrun
      exact .inl ⟨token, rfl, (congrArg Prod.fst hrun).symm⟩
    | none =>
      rw [ha] at hrun
      have hresult := (congrArg Prod.fst hrun).symm
      refine .inr ⟨rfl, _, fun hcut => ?_, search_exact _ _ _ _ (.start settings) effort, hresult⟩
      refine hlimit stepLimit settings.maxSteps (hresult.trans ?_)
      exact congrArg (Verdict.result settings) hcut

/-- Of the embeddings of a pattern a search within its ceilings finds the first one.
It reports a missing marker if there are embeddings and nothing to record, a dead end
if there is no embedding though all literals occur, and otherwise the first literal
that occurs nowhere. -/
theorem find_exact (hrun : find settings source length pattern effort = (result, spent))
    (hall : pattern.isReplaceAll = false) (happ : pattern.isAppend = false)
    (hlimit : ∀ limit ceiling, result ≠ .error (.overCeiling limit ceiling)) :
    ((∃ js marks, Embeds settings source length pattern js marks)
        ↔ (∃ found, result = .ok found) ∨ result = .error .noInserter)
      ∧ (∀ found, result = .ok found ↔ ∃ js, EmbedsFirst settings source length pattern js
          ⟨some found.insertion, found.deletion⟩)
      ∧ (result = .error .noInserter
          ↔ (∃ js marks, Embeds settings source length pattern js marks)
            ∧ pattern.hasInserter = false)
      ∧ (result = .error .exhausted
          ↔ (¬ ∃ js marks, Embeds settings source length pattern js marks)
            ∧ ∀ token ∈ pattern.literals, Occurs source token)
      ∧ (∀ token, result = .error (.tokenAbsent token)
          ↔ ∃ front back, pattern.literals = front ++ token :: back
            ∧ (∀ t ∈ front, Occurs source t) ∧ ¬ Occurs source token) := by
  simp only [← absent?_eq_none, ← absent?_eq_some]
  -- without an embedding there is no first one
  have hfirst : (¬ ∃ js marks, Embeds settings source length pattern js marks) →
      ∀ js marks, ¬ EmbedsFirst settings source length pattern js marks :=
    fun hnone js marks h => hnone ⟨js, marks, h.1⟩
  rcases find_cases hrun hall happ hlimit with ⟨token, ha, rfl⟩ | ⟨ha, verdict, hcut, hexact, rfl⟩
  · -- a literal that occurs nowhere leaves no embedding
    have hnone : ¬ ∃ js marks, Embeds settings source length pattern js marks := by
      rintro ⟨js, marks, h⟩
      rw [absent?_eq_none.mpr h.occurs] at ha
      exact absurd ha (by simp)
    refine ⟨?_, fun found => ?_, ?_, ?_, fun token' => ?_⟩
    · simp [hnone]
    · simp [hfirst hnone]
    · simp [hnone]
    · simp [ha, Fault.exhausted]
    · simp [ha]
  · cases verdict with
    | cutOff => exact absurd rfl hcut
    | deadEnd =>
      have hnone : ¬ ∃ js marks, Embeds settings source length pattern js marks := by
        rintro ⟨js, marks, h⟩
        exact hexact js marks h
      refine ⟨?_, fun found => ?_, ?_, ?_, fun token' => ?_⟩
      · simp [hnone, Verdict.result, Fault.exhausted]
      · simp [hfirst hnone, Verdict.result]
      · simp [hnone, Verdict.result, Fault.exhausted]
      · simp [hnone, ha, Verdict.result]
      · simp [ha, Verdict.result, Fault.exhausted]
    | found marks =>
      obtain ⟨js, hjs⟩ : ∃ js, EmbedsFirst settings source length pattern js marks := hexact
      have hsome : ∃ js marks, Embeds settings source length pattern js marks :=
        ⟨js, marks, hjs.1⟩
      have hins := hjs.1.insertion_eq_none_iff
      have hmarks := hjs.exists_iff
      obtain ⟨insertion, deletion⟩ := marks
      cases insertion with
      | none =>
        -- the pattern has no place to record
        refine ⟨?_, fun found => ?_, ?_, ?_, fun token' => ?_⟩
        · simp [hsome, Verdict.result]
        · simp [hmarks, Verdict.result]
        · simp [hsome, Verdict.result, hins.mp rfl]
        · simp [hsome, Verdict.result, Fault.exhausted]
        · simp [ha, Verdict.result]
      | some offset =>
        refine ⟨?_, fun found => ?_, ?_, ?_, fun token' => ?_⟩
        · simp [hsome, Verdict.result]
        · obtain ⟨offset', deletion'⟩ := found
          simp [hmarks, Verdict.result]
        · simpa [hsome, Verdict.result] using hins
        · simp [hsome, Verdict.result]
        · simp [ha, Verdict.result]

end Find

/-- The tokens of `f( f; "ab"`, nested one deep. -/
def callTokens : List Token :=
  [⟨.identifier, ['f'], 1, some 0⟩, ⟨.bracket, ['('], 1, some 1⟩, ⟨.identifier, ['f'], 1, some 3⟩,
    ⟨.symbol, [';'], 1, some 4⟩, ⟨.stringLiteral, ['"', 'a', 'b', '"'], 1, some 6⟩]

/-- The pattern `... f; "a>>>b"`. -/
def callPattern : Pattern :=
  ⟨[⟨.wildcard, ['.', '.', '.'], 0, none⟩, ⟨.identifier, ['f'], 0, none⟩,
    ⟨.symbol, [';'], 0, none⟩, ⟨.stringFragment, ['"', 'a'], 0, none⟩,
    ⟨.inserter, ['>', '>', '>'], 0, none⟩, ⟨.stringFragment, ['b', '"'], 0, none⟩]⟩

/-- The first `f` is a dead end, the second is not, and the marker stands inside the
literal behind it. -/
theorem find_exact_second_call :
    find { relativeDepth := .bool true } callTokens 10 callPattern {}
        = (.ok ⟨8, none⟩, ⟨10, 2⟩)
      ∧ ∃ js, EmbedsFirst { relativeDepth := .bool true } callTokens 10 callPattern js
          ⟨some 8, none⟩ := by
  have hrun : find { relativeDepth := .bool true } callTokens 10 callPattern {}
      = (.ok ⟨8, none⟩, ⟨10, 2⟩) := rfl
  have hlimit : ∀ limit ceiling, (.ok ⟨8, none⟩ : Except Fault Match)
      ≠ .error (.overCeiling limit ceiling) := by simp
  exact ⟨hrun, ((find_exact hrun rfl rfl hlimit).2.1 ⟨8, none⟩).mp rfl⟩

end Graft.Search
