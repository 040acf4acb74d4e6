/-
What a search finds if nothing cuts it off.

Steps are counted only to stop a search.  Without the count it is plain backtracking, and what
it finds is a matter of the pattern and of the cursor (`outcome`).  The tokens of a pattern are
taken one after the other, so what stands behind a token counts by its outcome and by its first
target, and two patterns that end alike are alike:

* `outcome` — the marks that a search without a ceiling ends with;
* `tryEach_outcome`, `search_outcome` — a search that is not cut off ends with them;
* `Alike` — two ends of patterns that nothing in front of them tells apart;
* `Alike.cons`, `Alike.append` — tokens in front of both;
* `eq_answer`, `find_alike` — a whole search.
-/
import Graft.Proofs.Search.Embedding

namespace Graft.Search

/-- The marks that a search ends with if it has no ceiling; none if it is a dead end. -/
def outcome (length : Int) : List Token → Cursor → Option Marks
  | [], cursor => some cursor.marks
  | token :: tokens, cursor =>
    match token.kind with
    | .comment => outcome length tokens cursor
    | .inserter => outcome length tokens (cursor.markInsertion length)
    | .folder => outcome length tokens (cursor.markDeletion length)
    | .wildcard =>
      if cursor.taken ≠ 0 then none
      else match nextTarget? tokens with
        | none => outcome length tokens { cursor with rest := [] }
        | some target => (landings cursor.shift token target cursor.rest).findSome?
            fun place => outcome length tokens { cursor with rest := place }
    | .stringFragment => (cursor.takeFragment? token).bind (outcome length tokens)
    | _ => (cursor.takeLiteral? token).bind (outcome length tokens)

/-- The verdict that an outcome stands for. -/
def Verdict.ofOutcome : Option Marks → Verdict
  | some marks => .found marks
  | none => .deadEnd

theorem ofOutcome_eq_found {found : Option Marks} {marks : Marks} :
    Verdict.ofOutcome found = .found marks ↔ found = some marks := by
  cases found <;> simp [Verdict.ofOutcome]

theorem ofOutcome_eq_deadEnd {found : Option Marks} :
    Verdict.ofOutcome found = .deadEnd ↔ found = none := by
  cases found <;> simp [Verdict.ofOutcome]

/-! ### Searches that are not cut off -/

section Search

variable {length ceiling : Int}

/-- The first place that is no dead end decides. -/
theorem tryEach_outcome {go : List Token → Effort → Verdict × Effort}
    {f : List Token → Option Marks}
    (hgo : ∀ place effort, (go place effort).1 ≠ .cutOff →
      (go place effort).1 = .ofOutcome (f place)) (places : List (List Token)) :
    ∀ effort, (tryEach ceiling go places effort).1 ≠ .cutOff →
      (tryEach ceiling go places effort).1 = .ofOutcome (places.findSome? f) := by
  induction places with
  | nil => exact fun _ _ => rfl
  | cons place places ih =>
    intro effort
    rw [tryEach]
    split
    · exact fun h => absurd rfl h
    · have hplace := hgo place effort.branch
      cases hgo' : go place effort.branch with
      | mk verdict spent =>
        rw [hgo'] at hplace
        cases verdict with
        | cutOff => exact fun h => absurd rfl h
        | deadEnd =>
          intro h
          rw [List.findSome?_cons, ofOutcome_eq_deadEnd.mp (hplace (by simp)).symm]
          exact ih spent h
        | found marks =>
          intro _
          rw [List.findSome?_cons, ofOutcome_eq_found.mp (hplace (by simp)).symm]
          rfl

/-- A search that is not cut off has the outcome of its tokens. -/
theorem search_outcome (tokens : List Token) : ∀ (cursor : Cursor) (effort : Effort),
    (search length ceiling tokens cursor effort).1 ≠ .cutOff →
      (search length ceiling tokens cursor effort).1 = .ofOutcome (outcome length tokens cursor) := by
  induction tokens with
  | nil => exact fun _ _ _ => rfl
  | cons token tokens ih =>
    intro cursor effort
    rw [search, outcome]
    split
    · exact fun h => absurd rfl h
    · cases hk : token.kind with
      | comment | inserter | folder => exact ih _ _
      | wildcard =>
        dsimp only
        split
        · exact fun _ => rfl
        · cases nextTarget? tokens with
          | none => exact ih _ _
          | some target =>
            exact tryEach_outcome (fun place spent => ih { cursor with rest := place } spent) _ _
      | stringFragment =>
        dsimp only
        cases cursor.takeFragment? token with
        | none => exact fun _ => rfl
        | some moved => exact ih moved _
      | directive | stringLiteral | operator | identifier | number | bracket | symbol =>
        dsimp only
        cases cursor.takeLiteral? token with
        | none => exact fun _ => rfl
        | some moved => exact ih moved _

end Search

/-! ### Patterns that end alike -/

/-- Nothing in front of the two ends of patterns tells them apart: they have the same first
target and the same outcome from everywhere. -/
structure Alike (length : Int) (tokens tokens' : List Token) : Prop where
  target : nextTarget? tokens = nextTarget? tokens'
  outcome : ∀ cursor, outcome length tokens cursor = outcome length tokens' cursor

section Alike

variable {length : Int} {tokens tokens' tokens'' : List Token} {token : Token}

theorem Alike.refl (tokens : List Token) : Alike length tokens tokens := ⟨rfl, fun _ => rfl⟩

theorem Alike.symm (h : Alike length tokens tokens') : Alike length tokens' tokens :=
  ⟨h.target.symm, fun cursor => (h.outcome cursor).symm⟩

theorem Alike.trans (h : Alike length tokens tokens') (h' : Alike length tokens' tokens'') :
    Alike length tokens tokens'' :=
  ⟨h.target.trans h'.target, fun cursor => (h.outcome cursor).trans (h'.outcome cursor)⟩

theorem Alike.cons (h : Alike length tokens tokens') (token : Token) :
    Alike length (token :: tokens) (token :: tokens') := by
  refine ⟨?_, fun cursor => ?_⟩
  · cases hmeta : token.isMeta with
    | true => rw [nextTarget?_cons_meta hmeta, nextTarget?_cons_meta hmeta, h.target]
    | false => rw [nextTarget?_cons_other hmeta, nextTarget?_cons_other hmeta]
  · have heq : Search.outcome length tokens = Search.outcome length tokens' := funext h.outcome
    simp only [Search.outcome, heq, h.target]

theorem Alike.append (h : Alike length tokens tokens') (before : List Token) :
    Alike length (before ++ tokens) (before ++ tokens') := by
  induction before with
  | nil => exact h
  | cons token before ih => exact ih.cons token

end Alike

/-! ### The whole search -/

/-- The result of a search that no ceiling on steps stops. -/
def answer (settings : Settings) (source : List Token) (length : Int) (pattern : Pattern) :
    Except Fault Match :=
  if settings.maxWildcards.bound < pattern.wildcardCount then
    .error (.overCeiling wildcardLimit settings.maxWildcards)
  else match absent? source pattern with
    | some token => .error (.tokenAbsent token)
    | none =>
      (Verdict.ofOutcome (outcome length pattern.tokens (start settings source))).result settings

section Find

variable {settings : Settings} {source : List Token} {length : Int}
  {pattern pattern' : Pattern} {effort spent effort' spent' : Effort}
  {result result' : Except Fault Match}

theorem eq_answer (hrun : find settings source length pattern effort = (result, spent))
    (hall : pattern.isReplaceAll = false) (happ : pattern.isAppend = false)
    (hcut : result ≠ .error (.overCeiling stepLimit settings.maxSteps)) :
    result = answer settings source length pattern := by
  rw [find, if_neg (by simp [hall]), if_neg (by simp [happ])] at hrun
  rw [answer]
  split at hrun
  · rw [if_pos ‹_›]
    exact (congrArg Prod.fst hrun).symm
  rw [if_neg ‹_›]
  cases ha : absent? source pattern with
  | some token =>
    rw [ha] at hrun
    exact (congrArg Prod.fst hrun).symm
  | none =>
    rw [ha] at hrun
    have hresult : result = (search length settings.maxSteps.bound pattern.tokens
        (start settings source) effort).1.result settings := (congrArg Prod.fst hrun).symm
    rw [hresult, search_outcome]
    intro hcutOff
    rw [hcutOff] at hresult
    exact hcut hresult

/-- Two patterns that are alike and have the same literals are found alike, unless one of the
searches is cut off. -/
theorem find_alike (hrun : find settings source length pattern effort = (result, spent))
    (hrun' : find settings source length pattern' effort' = (result', spent'))
    (hall : pattern.isReplaceAll = false) (happ : pattern.isAppend = false)
    (hall' : pattern'.isReplaceAll = false) (happ' : pattern'.isAppend = false)
    (hwildcards : settings.maxWildcards.bound < pattern.wildcardCount
      ↔ settings.maxWildcards.bound < pattern'.wildcardCount)
    (hliterals : pattern.literals = pattern'.literals)
    (halike : Alike length pattern.tokens pattern'.tokens)
    (hcut : result ≠ .error (.overCeiling stepLimit settings.maxSteps))
    (hcut' : result' ≠ .error (.overCeiling stepLimit settings.maxSteps)) : result = result' := by
  have habsent : absent? source pattern = absent? source pattern' := by
    rw [absent?, absent?, hliterals]
  rw [eq_answer hrun hall happ hcut, eq_answer hrun' hall' happ' hcut']
  simp only [answer, hwildcards, habsent, halike.outcome]

end Find

end Graft.Search
