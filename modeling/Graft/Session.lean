/-
Sessions.

A session holds the settings in force, the tally that searches are added to, and
the registered tokenizers.  Settings and tallies are put in force by contexts.
Each context remembers what was in force when it was entered, and leaving it puts
that back, in whatever order contexts are left.

* `enterSettings`, `enterTally` — open a context and give its handle;
* `leave` — close a context and give the tally that it opened;
* `record`, `absorb` — add effort to the tally in force.
-/
import Graft.Tally
import Graft.Tokenizer

namespace Graft

/-- What a context puts back when it is left.  A context that has been left puts
nothing back. -/
inductive Context where
  | settings (previous : Settings)
  | tally (own : Nat) (previous : Option Nat)
  | left (own : Option Nat)
  deriving Repr, DecidableEq

/-- The tally that a context opened. -/
def Context.own? : Context → Option Nat
  | settings _ => none
  | tally own _ => some own
  | left own => own

/-- The state of a session. -/
structure Session where
  settings : Settings := {}
  /-- All tallies ever opened, the oldest first. -/
  tallies : List Tally := []
  /-- The tally in force. -/
  active : Option Nat := none
  registry : Registry := .initial
  /-- All contexts ever entered; a handle is a position in this list. -/
  contexts : List Context := []
  deriving Repr, DecidableEq

namespace Session

/-- The tally that searches are added to. -/
def tally? (session : Session) : Option Tally := session.active.bind (session.tallies[·]?)

/-- Puts settings in force. -/
def useSettings (session : Session) (settings : Settings) : Session :=
  { session with settings }

/-- Opens a context with settings of its own. -/
def enterSettings (session : Session) (settings : Settings) : Session × Nat :=
  ({ session with
      settings
      contexts := session.contexts ++ [.settings session.settings] },
    session.contexts.length)

/-- Opens a context with a new tally. -/
def enterTally (session : Session) : Session × Nat :=
  ({ session with
      tallies := session.tallies ++ [{}]
      active := some session.tallies.length
      contexts := session.contexts ++ [.tally session.tallies.length session.active] },
    session.contexts.length)

/-- What was in force when the context was entered is in force again. -/
def restore (session : Session) : Context → Session
  | .settings previous => { session with settings := previous }
  | .tally _ previous => { session with active := previous }
  | .left _ => session

/-- Leaves a context, and gives the tally that it opened. -/
def leave (session : Session) (handle : Nat) : Session × Option Tally :=
  match session.contexts[handle]? with
  | none => (session, none)
  | some context =>
    let after := session.restore context
    ({ after with contexts := session.contexts.set handle (.left context.own?) },
      context.own?.bind (session.tallies[·]?))

/-- Changes the tally in force. -/
def updateTally (session : Session) (f : Tally → Tally) : Session :=
  match session.active with
  | none => session
  | some i => { session with tallies := session.tallies.modify i f }

/-- Adds effort to the tally in force. -/
def record (session : Session) (steps branches : Int) : Session :=
  session.updateTally (·.record steps branches)

/-- Adds the effort of searches to the tally in force. -/
def absorb (session : Session) (efforts : List Search.Effort) : Session :=
  session.updateTally (·.recordAll efforts)

/-- Registers a tokenizer. -/
def register (session : Session) (name : Text) (scheme : Scheme) : Session :=
  { session with registry := session.registry.register name scheme }

end Session

end Graft
