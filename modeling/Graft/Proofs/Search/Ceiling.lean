/-
A ceiling on steps cuts a search off and changes nothing else.

What a search does next does not depend on the effort counted so far, up to the step that
exceeds the ceiling.  So every search has a verdict and a cost of its own, whatever the
count that it starts from, and a ceiling decides by the sum of the two alone:

* `Costs` — a run has a verdict and a cost, and a ceiling below their sum cuts it off;
* `Costs.counted`, `Costs.followed` — one step in front of a run, and a run behind a dead end;
* `costs_tryEach`, `search_costs` — one place after the other, and one token after the other;
* `find_ceiling` — a whole search, from every count that earlier ones have left.
-/
import Graft.Search.Basic

namespace Graft.Search

/-- One effort after the other. -/
def Effort.plus (effort more : Effort) : Effort :=
  ⟨effort.steps + more.steps, effort.branches + more.branches⟩

/-- Within the ceiling, or with no step to count, the run ends with the verdict and the cost
is added to the count.  Otherwise it ends with the first step above the ceiling. -/
def Costs (run : Int → Effort → Verdict × Effort) (verdict : Verdict) (cost : Effort) : Prop :=
  ∀ ceiling effort,
    if cost.steps = 0 ∨ (effort.steps + cost.steps : Int) ≤ ceiling then
      run ceiling effort = (verdict, effort.plus cost)
    else
      (run ceiling effort).1 = .cutOff
        ∧ ((run ceiling effort).2.steps : Int) = max (effort.steps : Int) ceiling + 1

/-! ### Runs put together -/

section Costs

variable {run run' whole : Int → Effort → Verdict × Effort} {verdict verdict' : Verdict}
  {cost cost' one : Effort}

theorem Costs.within (h : Costs run verdict cost) {ceiling : Int} {effort : Effort}
    (hle : cost.steps = 0 ∨ (effort.steps + cost.steps : Int) ≤ ceiling) :
    run ceiling effort = (verdict, effort.plus cost) := by
  have hrun := h ceiling effort
  rwa [if_pos hle] at hrun

theorem Costs.beyond (h : Costs run verdict cost) {ceiling : Int} {effort : Effort}
    (hle : ¬ (cost.steps = 0 ∨ (effort.steps + cost.steps : Int) ≤ ceiling)) :
    (run ceiling effort).1 = .cutOff
      ∧ ((run ceiling effort).2.steps : Int) = max (effort.steps : Int) ceiling + 1 := by
  have hrun := h ceiling effort
  rwa [if_neg hle] at hrun

/-- A run that is at its end counts nothing. -/
theorem costs_done (verdict : Verdict) : Costs (fun _ effort => (verdict, effort)) verdict {} := by
  intro ceiling effort
  rw [if_pos (.inl rfl)]
  rfl

/-- A run behind one step that is counted, and cut off if it is one too many. -/
theorem Costs.counted (h : Costs run verdict cost) (hone : one.steps = 1)
    (hwhole : ∀ ceiling effort, whole ceiling effort
      = if (effort.plus one).exceeds ceiling then (.cutOff, effort.plus one)
        else run ceiling (effort.plus one)) :
    Costs whole verdict (one.plus cost) := by
  intro ceiling effort
  have hsteps : (effort.plus one).steps = effort.steps + 1 := by rw [← hone]; rfl
  have hcost : (one.plus cost).steps = 1 + cost.steps := by rw [← hone]; rfl
  rw [hwhole, hcost]
  by_cases hexceeds : (effort.plus one).exceeds ceiling = true
  · have hlt : ceiling < effort.steps + 1 := by
      simpa [Effort.exceeds, hsteps] using hexceeds
    rw [if_pos hexceeds, if_neg (by omega)]
    exact ⟨rfl, by simp only [hsteps]; omega⟩
  · have hge : (effort.steps : Int) + 1 ≤ ceiling := by
      simpa [Effort.exceeds, hsteps] using hexceeds
    rw [if_neg hexceeds]
    by_cases hle : cost.steps = 0 ∨ ((effort.plus one).steps + cost.steps : Int) ≤ ceiling
    · rw [if_pos (by omega), h.within hle]
      simp only [Effort.plus, Nat.add_assoc]
    · rw [if_neg (by omega)]
      obtain ⟨hcut, hcount⟩ := h.beyond hle
      exact ⟨hcut, by omega⟩

/-- A run whose dead end is followed by another one. -/
theorem Costs.followed (h : Costs run .deadEnd cost) (h' : Costs run' verdict cost')
    (hwhole : ∀ ceiling effort, whole ceiling effort = match run ceiling effort with
      | (.deadEnd, spent) => run' ceiling spent
      | decided => decided) :
    Costs whole verdict (cost.plus cost') := by
  intro ceiling effort
  have hcost : (cost.plus cost').steps = cost.steps + cost'.steps := rfl
  rw [hwhole, hcost]
  by_cases hle : cost.steps = 0 ∨ (effort.steps + cost.steps : Int) ≤ ceiling
  · have hsteps : (effort.plus cost).steps = effort.steps + cost.steps := rfl
    rw [h.within hle]
    dsimp only
    by_cases hle' : cost'.steps = 0 ∨ ((effort.plus cost).steps + cost'.steps : Int) ≤ ceiling
    · rw [if_pos (by omega), h'.within hle']
      simp only [Effort.plus, Nat.add_assoc]
    · rw [if_neg (by omega)]
      obtain ⟨hcut, hcount⟩ := h'.beyond hle'
      exact ⟨hcut, by omega⟩
  · -- what is cut off is no dead end
    obtain ⟨hcut, hcount⟩ := h.beyond hle
    have hdecided : (match run ceiling effort with
        | (.deadEnd, spent) => run' ceiling spent
        | decided => decided) = run ceiling effort := by
      split
      · rename_i hrun
        simp [hrun] at hcut
      · rfl
    rw [hdecided, if_neg (by omega)]
    exact ⟨hcut, hcount⟩

/-- A run that is no dead end is followed by nothing. -/
theorem Costs.decided (h : Costs run verdict cost) (hne : verdict ≠ .deadEnd)
    (hwhole : ∀ ceiling effort, whole ceiling effort = match run ceiling effort with
      | (.deadEnd, spent) => run' ceiling spent
      | decided => decided) :
    Costs whole verdict cost := by
  have heq : whole = run := by
    funext ceiling effort
    rw [hwhole]
    split
    · -- neither the verdict nor a cut is a dead end
      rename_i hrun
      by_cases hle : cost.steps = 0 ∨ (effort.steps + cost.steps : Int) ≤ ceiling
      · rw [h.within hle] at hrun
        exact absurd (congrArg Prod.fst hrun) hne
      · obtain ⟨hcut, -⟩ := h.beyond hle
        simp [hrun] at hcut
    · rfl
  rwa [heq]

end Costs

/-! ### The search -/

/-- The run has a verdict other than `cutOff`, and a cost. -/
def HasCost (run : Int → Effort → Verdict × Effort) : Prop :=
  ∃ verdict cost, verdict ≠ .cutOff ∧ Costs run verdict cost

theorem hasCost_deadEnd : HasCost fun _ effort => (.deadEnd, effort) :=
  ⟨.deadEnd, {}, by simp, costs_done .deadEnd⟩

/-- Trying one place after the other costs what the places cost, up to the first that is no
dead end. -/
theorem costs_tryEach {go : Int → List Token → Effort → Verdict × Effort}
    (hgo : ∀ place, HasCost fun ceiling => go ceiling place) (places : List (List Token)) :
    HasCost fun ceiling => tryEach ceiling (go ceiling) places := by
  induction places with
  | nil => exact hasCost_deadEnd
  | cons place places ih =>
    obtain ⟨verdict, cost, hverdict, hcost⟩ := hgo place
    -- a place is tried behind the step that counts it
    have hstep : ∀ ceiling (effort : Effort), tryEach ceiling (go ceiling) (place :: places) effort
        = if (effort.plus ⟨1, 1⟩).exceeds ceiling then (.cutOff, effort.plus ⟨1, 1⟩)
          else match go ceiling place (effort.plus ⟨1, 1⟩) with
            | (.deadEnd, spent) => tryEach ceiling (go ceiling) places spent
            | decided => decided := by
      intro ceiling effort
      rfl
    by_cases hdead : verdict = .deadEnd
    · subst hdead
      obtain ⟨verdict', cost', hverdict', hcost'⟩ := ih
      have hwhole := hcost.followed hcost' fun ceiling effort => rfl
      exact ⟨verdict', _, hverdict', hwhole.counted rfl hstep⟩
    · have hwhole : Costs (fun ceiling effort => match go ceiling place effort with
          | (.deadEnd, spent) => tryEach ceiling (go ceiling) places spent
          | decided => decided) verdict cost := hcost.decided hdead fun ceiling effort => rfl
      exact ⟨verdict, _, hverdict, hwhole.counted rfl hstep⟩

/-- One token costs a step, and then what is done with it. -/
theorem HasCost.visited {run whole : Int → Effort → Verdict × Effort} (h : HasCost run)
    (hwhole : ∀ ceiling effort, whole ceiling effort
      = if effort.visit.exceeds ceiling then (.cutOff, effort.visit)
        else run ceiling effort.visit) : HasCost whole := by
  obtain ⟨verdict, cost, hverdict, hcost⟩ := h
  have hcounted : Costs whole verdict (Effort.plus ⟨1, 0⟩ cost) := hcost.counted rfl hwhole
  exact ⟨verdict, _, hverdict, hcounted⟩

/-- The verdict and the cost of a search depend on the tokens and the cursor alone. -/
theorem search_costs (length : Int) (tokens : List Token) : ∀ cursor : Cursor,
    HasCost fun ceiling => search length ceiling tokens cursor := by
  induction tokens with
  | nil =>
    intro cursor
    exact ⟨.found cursor.marks, {}, by simp, costs_done _⟩
  | cons token tokens ih =>
    intro cursor
    cases hk : token.kind with
    | comment =>
      refine (ih cursor).visited fun ceiling effort => ?_
      simp only [search, hk]
    | inserter =>
      refine (ih (cursor.markInsertion length)).visited fun ceiling effort => ?_
      simp only [search, hk]
    | folder =>
      refine (ih (cursor.markDeletion length)).visited fun ceiling effort => ?_
      simp only [search, hk]
    | wildcard =>
      by_cases htaken : cursor.taken ≠ 0
      · refine hasCost_deadEnd.visited fun ceiling effort => ?_
        simp only [search, hk, if_pos htaken]
      cases ht : nextTarget? tokens with
      | none =>
        refine (ih { cursor with rest := [] }).visited fun ceiling effort => ?_
        simp only [search, hk, if_neg htaken, ht]
      | some target =>
        have hplaces : HasCost fun ceiling => tryEach ceiling
            (fun place => search length ceiling tokens { cursor with rest := place })
            (landings cursor.shift token target cursor.rest) :=
          costs_tryEach (fun place => ih { cursor with rest := place }) _
        refine hplaces.visited fun ceiling effort => ?_
        simp only [search, hk, if_neg htaken, ht]
    | stringFragment =>
      cases hmoved : cursor.takeFragment? token with
      | none =>
        refine hasCost_deadEnd.visited fun ceiling effort => ?_
        simp only [search, hk, hmoved]
      | some moved =>
        refine (ih moved).visited fun ceiling effort => ?_
        simp only [search, hk, hmoved]
    | directive | stringLiteral | operator | identifier | number | bracket | symbol =>
      cases hmoved : cursor.takeLiteral? token with
      | none =>
        refine hasCost_deadEnd.visited fun ceiling effort => ?_
        simp only [search, hk, hmoved]
      | some moved =>
        refine (ih moved).visited fun ceiling effort => ?_
        simp only [search, hk, hmoved]

/-! ### The whole search -/

/-- The settings with another ceiling on steps. -/
def withCeiling (settings : Settings) (ceiling : Int) : Settings :=
  { settings with maxSteps := .int ceiling }

/-- The result and the effort of a search whose steps nothing bounds: those that it has under
every ceiling from some number on. -/
def Unbounded (settings : Settings) (source : List Token) (length : Int) (pattern : Pattern)
    (result : Except Fault Match) (cost : Effort) : Prop :=
  ∃ enough : Int, ∀ ceiling, enough ≤ ceiling →
    find (withCeiling settings ceiling) source length pattern {} = (result, cost)

/-- A search either does not look at its ceiling, or has a verdict and a cost. -/
theorem find_withCeiling (settings : Settings) (source : List Token) (length : Int)
    (pattern : Pattern) :
    (∃ result, ∀ ceiling effort,
        find (withCeiling settings ceiling) source length pattern effort = (result, effort))
      ∨ ∃ run, HasCost run ∧ ∀ ceiling effort,
        find (withCeiling settings ceiling) source length pattern effort
          = ((run ceiling effort).1.result (withCeiling settings ceiling),
            (run ceiling effort).2) := by
  by_cases hall : pattern.isReplaceAll = true
  · exact .inl ⟨_, fun ceiling effort => by rw [find, if_pos hall]⟩
  by_cases happend : pattern.isAppend = true
  · exact .inl ⟨_, fun ceiling effort => by rw [find, if_neg hall, if_pos happend]⟩
  by_cases hwildcards : settings.maxWildcards.bound < pattern.wildcardCount
  · refine .inl ⟨.error (.overCeiling wildcardLimit settings.maxWildcards), ?_⟩
    intro ceiling effort
    rw [find, if_neg hall, if_neg happend]
    exact if_pos hwildcards
  cases habsent : absent? source pattern with
  | some token =>
    refine .inl ⟨.error (.tokenAbsent token), fun ceiling effort => ?_⟩
    rw [find, if_neg hall, if_neg happend, habsent]
    exact if_neg hwildcards
  | none =>
    refine .inr ⟨_, search_costs length pattern.tokens (start settings source),
      fun ceiling effort => ?_⟩
    rw [find, if_neg hall, if_neg happend, habsent]
    exact if_neg hwildcards

/-- A verdict that is no cut means the same under every ceiling. -/
theorem result_withCeiling {verdict : Verdict} (h : verdict ≠ .cutOff) (settings : Settings)
    (ceiling : Int) : verdict.result (withCeiling settings ceiling) = verdict.result settings := by
  cases verdict with
  | found marks =>
    obtain ⟨insertion, deletion⟩ := marks
    cases insertion <;> rfl
  | deadEnd => rfl
  | cutOff => exact absurd rfl h

/-- **The ceiling only cuts off.**  A search whose steps nothing bounds has a result and a
cost.  From every count on, it has that result and adds that cost if this stays within the
ceiling, or if there is no step to count; otherwise it reports the ceiling, and has counted
up to the first step above it. -/
theorem find_ceiling (settings : Settings) (source : List Token) (length : Int)
    (pattern : Pattern) :
    ∃ result cost, Unbounded settings source length pattern result cost
      ∧ ∀ (ceiling : Int) (effort : Effort),
        if cost.steps = 0 ∨ (effort.steps + cost.steps : Int) ≤ ceiling then
          find (withCeiling settings ceiling) source length pattern effort
            = (result, effort.plus cost)
        else
          (find (withCeiling settings ceiling) source length pattern effort).1
              = .error (.limitExceeded stepLimit (.int ceiling))
            ∧ ((find (withCeiling settings ceiling) source length pattern effort).2.steps : Int)
              = max (effort.steps : Int) ceiling + 1 := by
  have hzero : ∀ cost : Effort, Effort.plus {} cost = cost := by
    intro cost
    simp [Effort.plus]
  rcases find_withCeiling settings source length pattern with
    ⟨result, hfind⟩ | ⟨run, ⟨verdict, cost, hverdict, hcost⟩, hfind⟩
  · -- nothing is counted
    refine ⟨result, {}, ⟨0, fun ceiling _ => hfind ceiling {}⟩, fun ceiling effort => ?_⟩
    rw [if_pos (.inl rfl)]
    exact hfind ceiling effort
  · refine ⟨verdict.result settings, cost, ⟨cost.steps, fun ceiling hle => ?_⟩,
      fun ceiling effort => ?_⟩
    · have hrun : run ceiling {} = (verdict, Effort.plus {} cost) :=
        hcost.within (.inr (by simpa using hle))
      rw [hfind, hrun, result_withCeiling hverdict, hzero]
    · rw [hfind]
      split
      · rename_i hle
        rw [hcost.within hle, result_withCeiling hverdict]
      · rename_i hle
        obtain ⟨hcut, hcount⟩ := hcost.beyond hle
        exact ⟨by rw [hcut]; rfl, hcount⟩

-- two steps each under a ceiling of five: the third search is cut off on its way, and the
-- next one at once
example : (findRepeatedly { maxSteps := .int 5 } [⟨.identifier, ['a'], 0, some 0⟩] 1
    ⟨[⟨.inserter, ['>', '>', '>'], 0, none⟩, ⟨.identifier, ['a'], 0, none⟩]⟩ 4 {}).map (·.2.steps)
      = [2, 4, 6, 7] := by decide

end Graft.Search
