import PauseGoal.Word
import PauseGoal.ByteSize
import PauseGoal.Decimal.Places

/-!
# The log

The policy explains its decisions in a log. An entry has a severity, a topic and a text in pieces;
numbers stay numbers until an entry is rendered. Entries below the log's level are not kept.

`Logged` is a computation that may write entries and may end in a fault. What it wrote before the
fault stays written.
-/

namespace PauseGoal

/-- How much an entry matters. -/
inductive Severity where
  | trace
  | debug
  | info
  | warn
deriving DecidableEq, Repr

/-- Position in the order from least to most severe. -/
def Severity.rank : Severity → Nat
  | .trace => 0
  | .debug => 1
  | .info => 2
  | .warn => 3

def Severity.name : Severity → String
  | .trace => "TRACE"
  | .debug => "DEBUG"
  | .info => "INFO"
  | .warn => "WARN"

/-- What an entry is about. -/
inductive Topic where
  | decisions
  /-- The old occupancy at which marking starts. -/
  | occupancy
  /-- The choice of the collection set. -/
  | collectionSet
  /-- Concurrent refinement of cards. -/
  | refinement
  | ages
  | phases
deriving DecidableEq, Repr

def Topic.name : Topic → String
  | .decisions => "gc::ergo"
  | .occupancy => "gc::ergo::ihop"
  | .collectionSet => "gc::ergo::cset"
  | .refinement => "gc::ergo::refine"
  | .ages => "gc::age"
  | .phases => "gc::phases"

/-- A part of an entry's text. -/
inductive Piece (α : Type) where
  | text (words : String)
  | count (n : Nat)
  /-- A count, moved to the right end of a column of the given width. -/
  | column (width n : Nat)
  /-- A size in bytes, written for readers. -/
  | bytes (n : Nat)
  /-- A scalar with a fixed number of decimal places. -/
  | fixed (places : Nat) (x : α)
  /-- A scalar with as few digits as tell it from all others. -/
  | shortest (x : α)
deriving DecidableEq, Repr

instance Piece.ofString {α : Type} : Coe String (Piece α) := ⟨.text⟩

instance Piece.ofNat {α : Type} : Coe Nat (Piece α) := ⟨.count⟩

def Piece.render : Piece Float → String
  | .text words => words
  | .count n => n.repr
  | .column width n => String.ofList (List.replicate (width - n.repr.length) ' ') ++ n.repr
  | .bytes n => byteSizeText n
  | .fixed places x => Decimal.fixed places x
  | .shortest x => Decimal.shortest x

structure Entry (α : Type) where
  severity : Severity
  topic : Topic
  pieces : List (Piece α)
deriving DecidableEq, Repr

/-- A line as rendered: severity, topic and text. -/
def Entry.render (entry : Entry Float) : String :=
  entry.severity.name ++ " " ++ entry.topic.name ++ " " ++
    String.join (entry.pieces.map Piece.render)

/-- What was written so far, and the least severity that is kept; without one nothing is. -/
structure Log (α : Type) where
  level : Option Severity := none
  entries : List (Entry α) := []
deriving DecidableEq, Repr

def Log.keeps {α : Type} (log : Log α) (severity : Severity) : Bool :=
  match log.level with
  | none => false
  | some level => decide (level.rank ≤ severity.rank)

/-- Appends an entry, if the log keeps its severity. -/
def Log.write {α : Type} (log : Log α) (entry : Entry α) : Log α :=
  if log.keeps entry.severity then { log with entries := log.entries ++ [entry] } else log

/-- A computation that may write to the log and may end in a fault. -/
abbrev Logged (α : Type) (β : Type) : Type := ExceptT (Fault α) (StateM (Log α)) β

namespace Logged

variable {α : Type}

/-- A computation that writes nothing. -/
def ofChecked {β : Type} (x : Checked α β) : Logged α β := ExceptT.mk (pure x)

def write (severity : Severity) (topic : Topic) (pieces : List (Piece α)) : Logged α Unit :=
  modify fun log => log.write { severity, topic, pieces }

def keeps (severity : Severity) : Logged α Bool := do
  return (← get).keeps severity

end Logged

end PauseGoal
