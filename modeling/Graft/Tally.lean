/-
Tallies of search effort.

A tally adds up the searches made while it is open: how many there were, their
steps and their branches.
-/
import Graft.Search.Basic

namespace Graft

/-- The sum of the effort of searches. -/
structure Tally where
  calls : Int := 0
  steps : Int := 0
  branches : Int := 0
  deriving Repr, DecidableEq

/-- One search more. -/
def Tally.record (tally : Tally) (steps branches : Int) : Tally :=
  ⟨tally.calls + 1, tally.steps + steps, tally.branches + branches⟩

/-- The searches of a run are added. -/
def Tally.recordAll (tally : Tally) (efforts : List Search.Effort) : Tally :=
  efforts.foldl (fun t e => t.record e.steps e.branches) tally

end Graft
