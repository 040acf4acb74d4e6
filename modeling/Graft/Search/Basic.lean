/-
Searching a pattern in source tokens.

The tokens of a pattern are taken one after the other.  Comments match nothing,
markers record where the cursor stands, other tokens move it.  A wildcard tries
the places where it may end, the nearest first, and the first one from which the
rest of the pattern matches decides.

Effort is counted: one step for each pattern token visited and for each place
that a wildcard tries, and one branch for each such place.  The step that exceeds
the ceiling is counted too, and ends the search with the verdict `cutOff`, which
says nothing about the pattern.

* `search` — the verdict from a cursor, and the effort spent;
* `find` — the whole search: shapes that need none, the ceilings, tokens that occur
  nowhere, and the result.
-/
import Graft.Search.Cursor
import Graft.Fault
import Graft.Log
import Graft.Settings

namespace Graft

/-- Where to splice: the offset of insertion, and the end of the part to delete. -/
structure Match where
  insertion : Int
  deletion : Option Int := none
  deriving Repr, DecidableEq

/-- Something is deleted. -/
def Match.deletes (found : Match) : Bool := found.deletion.any (found.insertion < ·)

namespace Search

/-- The effort of a search. -/
structure Effort where
  steps : Nat := 0
  branches : Nat := 0
  deriving Repr, DecidableEq

/-- One step more. -/
def Effort.visit (effort : Effort) : Effort := { effort with steps := effort.steps + 1 }

/-- One step and one branch more. -/
def Effort.branch (effort : Effort) : Effort := ⟨effort.steps + 1, effort.branches + 1⟩

/-- The effort exceeds the ceiling. -/
def Effort.exceeds (ceiling : Int) (effort : Effort) : Bool := ceiling < effort.steps

/-- How a search ends. -/
inductive Verdict where
  /-- The pattern matches, and its markers recorded these offsets. -/
  | found (marks : Marks)
  /-- Nothing is left to try. -/
  | deadEnd
  /-- The ceiling was reached. -/
  | cutOff
  deriving Repr, DecidableEq

/-- Tries one place after the other; the first that is no dead end decides. -/
def tryEach (ceiling : Int) (go : List Token → Effort → Verdict × Effort) :
    List (List Token) → Effort → Verdict × Effort
  | [], effort => (.deadEnd, effort)
  | place :: places, effort =>
    if effort.branch.exceeds ceiling then (.cutOff, effort.branch)
    else match go place effort.branch with
      | (.deadEnd, spent) => tryEach ceiling go places spent
      | decided => decided

/-- The first token that is not meta. -/
def nextTarget? (tokens : List Token) : Option Token := tokens.find? (!·.isMeta)

/-- Matches the tokens of a pattern from a cursor on, in a source text of `length`
characters. -/
def search (length ceiling : Int) : List Token → Cursor → Effort → Verdict × Effort
  | [], cursor, effort => (.found cursor.marks, effort)
  | token :: tokens, cursor, effort =>
    if effort.visit.exceeds ceiling then (.cutOff, effort.visit)
    else match token.kind with
      | .comment => search length ceiling tokens cursor effort.visit
      | .inserter => search length ceiling tokens (cursor.markInsertion length) effort.visit
      | .folder => search length ceiling tokens (cursor.markDeletion length) effort.visit
      | .wildcard =>
        if cursor.taken ≠ 0 then (.deadEnd, effort.visit)
        else match nextTarget? tokens with
          | none => search length ceiling tokens { cursor with rest := [] } effort.visit
          | some target =>
            tryEach ceiling
              (fun place spent => search length ceiling tokens { cursor with rest := place } spent)
              (landings cursor.shift token target cursor.rest) effort.visit
      | .stringFragment =>
        match cursor.takeFragment? token with
        | none => (.deadEnd, effort.visit)
        | some moved => search length ceiling tokens moved effort.visit
      | _ =>
        match cursor.takeLiteral? token with
        | none => (.deadEnd, effort.visit)
        | some moved => search length ceiling tokens moved effort.visit

/-- The cursor that a search starts from. -/
def start (settings : Settings) (source : List Token) : Cursor :=
  { rest := source, shift := if settings.relativeDepth.holds then none else some 0 }

/-- The first literal of the pattern whose text no source token has. -/
def absent? (source : List Token) (pattern : Pattern) : Option Token :=
  pattern.literals.find? fun token => !source.any (·.text == token.text)

/-- The name of the ceiling on steps. -/
def stepLimit : Text := "max_steps".toList

/-- The name of the ceiling on wildcards. -/
def wildcardLimit : Text := "max_wildcards".toList

/-- What a verdict means for the one who asked. -/
def Verdict.result (settings : Settings) : Verdict → Except Fault Match
  | found ⟨some insertion, deletion⟩ => .ok ⟨insertion, deletion⟩
  | found ⟨none, _⟩ => .error .noInserter
  | deadEnd => .error .exhausted
  | cutOff => .error (.overCeiling stepLimit settings.maxSteps)

/-- The offsets of a pattern in source tokens, with the effort counted on from
`effort`. -/
def find (settings : Settings) (source : List Token) (length : Int) (pattern : Pattern)
    (effort : Effort) : Except Fault Match × Effort :=
  if pattern.isReplaceAll then (.ok ⟨0, some length⟩, effort)
  else if pattern.isAppend then (.ok ⟨length, none⟩, effort)
  else if settings.maxWildcards.bound < pattern.wildcardCount then
    (.error (.overCeiling wildcardLimit settings.maxWildcards), effort)
  else match absent? source pattern with
    | some token => (.error (.tokenAbsent token), effort)
    | none =>
      let (verdict, spent) :=
        search length settings.maxSteps.bound pattern.tokens (start settings source) effort
      (verdict.result settings, spent)

/-- The same search made a number of times, the effort counted on. -/
def findRepeatedly (settings : Settings) (source : List Token) (length : Int)
    (pattern : Pattern) : Nat → Effort → List (Except Fault Match × Effort)
  | 0, _ => []
  | times + 1, effort =>
    let found := find settings source length pattern effort
    found :: findRepeatedly settings source length pattern times found.2

/-- The record of a match. -/
def matchRecord (found : Match) (effort : Effort) : Log.Record :=
  let deletion := match found.deletion with
    | none => "None".toList
    | some offset => Text.ofInt offset
  .debug "matcher" <| "Matched at insertion=".toList ++ Text.ofInt found.insertion
    ++ " deletion=".toList ++ deletion ++ " after ".toList ++ Text.ofNat effort.steps
    ++ " steps".toList

/-- The records of a search for a pattern with its result and effort. -/
def records (pattern : Pattern) (result : Except Fault Match) (effort : Effort) :
    List Log.Record :=
  let shape :=
    if pattern.isReplaceAll then [.debug "matcher" "Pattern replaces the whole file".toList]
    else if pattern.isAppend then [.debug "matcher" "Pattern appends at end of file".toList]
    else []
  shape ++ match result with
    | .ok found => [matchRecord found effort]
    | .error _ => []

end Search

end Graft
