import PauseGoal.Log
import PauseGoal.Marking.Threshold
import PauseGoal.OldRegions.Selection
import PauseGoal.Pause.Kind

/-!
# Events

Beside the log, which is for readers, the policy reports its decisions as events, which are for
programs. The journal holds both.

`Act` is a computation that may write to the journal and may end in a fault. Computations that only
log are embedded by `Act.ofLogged`, which leaves the events alone.
-/

namespace PauseGoal

/-- A decision of the policy or something that it was told. Times are in seconds, goals in
milliseconds. -/
inductive Event (α : Type) where
  /-- A pause ended. -/
  | pause (kind : Pause.Kind) (start finish : α)
  /-- The young generation got a new target and maximum length. -/
  | youngTarget (target unbounded maximum : Nat)
  /-- The marking threshold learned something. -/
  | threshold (report : Marking.Report α)
  /-- The old part of a collection set was chosen. -/
  | collectionSet (eden survivors : Nat) (old : OldRegions.Budget α)
  /-- The tenuring threshold of the next pause was chosen. -/
  | tenuring (threshold desiredBytes maxSurvivors : Nat)
  /-- A marking request was looked at. -/
  | markingDecision (initiated : Bool) (reason : String)
  /-- The time for logged cards in the next pause was chosen. -/
  | refinementGoal (goal loggedCards hotCards : α)
deriving DecidableEq, Repr

/-- The log and the events so far. -/
structure Journal (α : Type) where
  log : Log α := {}
  events : List (Event α) := []
deriving DecidableEq, Repr

/-- A computation that may write to the journal and may end in a fault. -/
abbrev Act (α : Type) (β : Type) : Type := ExceptT (Fault α) (StateM (Journal α)) β

namespace Act

variable {α β : Type}

/-- A computation that only writes to the log. -/
def ofLogged (x : Logged α β) : Act α β :=
  ExceptT.mk fun journal =>
    let (result, log) := x.run.run journal.log
    (result, { journal with log := log })

def ofChecked (x : Checked α β) : Act α β := ExceptT.mk (pure x)

def write (severity : Severity) (topic : Topic) (pieces : List (Piece α)) : Act α Unit :=
  ofLogged (Logged.write severity topic pieces)

def report (event : Event α) : Act α Unit :=
  modify fun journal => { journal with events := journal.events ++ [event] }

end Act

end PauseGoal
