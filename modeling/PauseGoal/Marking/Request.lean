/-!
# The marking request flag

Any thread may ask for a marking cycle at any time; the policy takes the request up while the world
is stopped. Both sides meet in one atomic flag:

* a request turns *idle* into *requested*, and is absorbed in the other two states;
* the policy turns *requested* into *scheduled* when a pause does initial-mark work, and *scheduled*
  into *idle* when that work is done;
* or it withdraws the request and turns *requested* into *idle*.

Every load and every exchange is one atomic step. Requests of other threads fall between the steps
of the policy, so the flag carries a schedule of the requests that arrive before each coming step,
and a tally of the exchanges that took place.
-/

namespace PauseGoal.Marking

inductive Flag where
  | idle
  | requested
  | scheduled
deriving DecidableEq, Repr

/-- How many exchanges of each sort took place. -/
structure Tally where
  raised : Nat := 0
  scheduled : Nat := 0
  completed : Nat := 0
  withdrawn : Nat := 0
deriving DecidableEq, Repr

/-- The flag, the requests of other threads that arrive before each coming step of the policy, and
the tally. After the end of the schedule no other thread asks. -/
structure Request where
  flag : Flag := .idle
  arrivals : List Nat := []
  tally : Tally := {}
deriving DecidableEq, Repr

namespace Request

/-- The exchange that asks for marking: whether it raised the request, and the flag after it. -/
def raise (r : Request) : Bool × Request :=
  if r.flag = .idle then
    (true, { r with flag := .requested, tally.raised := r.tally.raised + 1 })
  else (false, r)

/-- Several requests in a row: how many raised it, and the flag after them. -/
def raiseTimes : Nat → Request → Nat × Request
  | 0, r => (0, r)
  | n + 1, r =>
    let (raised, r) := r.raise
    let (more, r) := raiseTimes n r
    ((if raised then 1 else 0) + more, r)

/-- Lets the requests of other threads arrive that come before the next step of the policy. -/
def settle (r : Request) : Request :=
  match r.arrivals with
  | [] => r
  | n :: later => (raiseTimes n { r with arrivals := later }).2

def load (r : Request) : Flag × Request := (r.settle.flag, r.settle)

/-- The policy asks for marking itself. -/
def ask (r : Request) : Bool × Request := r.settle.raise

/-- The policy takes up a request: the current pause does initial-mark work. -/
def schedule (r : Request) : Bool × Request :=
  let r := r.settle
  if r.flag = .requested then
    (true, { r with flag := .scheduled, tally.scheduled := r.tally.scheduled + 1 })
  else (false, r)

def complete (r : Request) : Bool × Request :=
  let r := r.settle
  if r.flag = .scheduled then
    (true, { r with flag := .idle, tally.completed := r.tally.completed + 1 })
  else (false, r)

def withdraw (r : Request) : Bool × Request :=
  let r := r.settle
  if r.flag = .requested then
    (true, { r with flag := .idle, tally.withdrawn := r.tally.withdrawn + 1 })
  else (false, r)

end Request

end PauseGoal.Marking
