import PauseGoal.Decimal.Shortest

/-!
# Faults

A fault is the end of a computation: a count that left the range of 64-bit words, or a caller that
broke the contract of an operation. Each cause is a constructor that carries the values at fault;
`Fault.message` is the one place that puts them into words.
-/

namespace PauseGoal

/-- Why a computation cannot go on. `α` is the type of the scalars. -/
inductive Fault (α : Type) where
  | additionOverflow
  | subtractionOverflow
  | multiplicationOverflow
  | divisionByZero
  /-- An index past the end of a table. -/
  | indexOutOfBounds (length index : Nat)
  /-- A sample window needs room for a sample. -/
  | emptyWindow
  /-- The pause time allowed in a time slice has to be shorter than the slice. -/
  | pauseExceedsSlice (pause slice : α)
  /-- No delay brings the window below its limit. -/
  | windowExhausted (left : α)
  | fullCollectionAsEvacuation
  /-- An initial mark cannot happen in the last young collection before mixed ones. -/
  | initialMarkBeforeMixed
  | pauseEndsBeforeStart (finish start : α)
  /-- Two initial marks were recorded without a mixed collection in between. -/
  | initialMarkRepeated
  /-- The marking length was asked for before it was known. -/
  | markingLengthUnknown
  /-- An age index that was not handed out yet. -/
  | ageFromFuture (index allocated : Nat)
  /-- An age without a region in this collection. -/
  | ageNotCollected (age regions : Nat)
  /-- The initial marking threshold has to be a percentage. -/
  | thresholdNotPercentage (percent : α)
  /-- The marking threshold was asked for before the target occupancy was set. -/
  | targetOccupancyMissing
  | negativeAllocationTime (time : α)
  /-- A fixed threshold takes positive marking lengths. -/
  | markingLengthNotPositive
  /-- An adaptive threshold takes marking lengths that are not negative. -/
  | negativeMarkingLength (length : α)
  | liveExceedsUsed (index live used : Nat)
  /-- Young regions are collected anyway and so are no candidates. -/
  | youngCandidate (index : Nat)
  | removalExceedsRemaining (count remaining : Nat)
  | emptyHeap
  | youngBoundsCrossed
  /-- The desired minimum has to exceed the survivors. -/
  | noRoomForEden (minimum survivors : Nat)
  | emptyLengthRange (low high : Nat)
  | fixedYoungLength
  /-- A pause left its initial mark unfinished. -/
  | initialMarkLeftScheduled
  | requestVanished
  | lastYoungStartsMarking
  | initialMarkWhileMarking
  | noCandidates
  | optionalOutsideMixed
  | noOptionalCandidates
deriving DecidableEq, Repr

def Fault.isArithmetic {α : Type} : Fault α → Bool
  | .additionOverflow | .subtractionOverflow | .multiplicationOverflow | .divisionByZero => true
  | _ => false

def Fault.message : Fault Float → String
  | .additionOverflow => "attempt to add with overflow"
  | .subtractionOverflow => "attempt to subtract with overflow"
  | .multiplicationOverflow => "attempt to multiply with overflow"
  | .divisionByZero => "attempt to divide by zero"
  | .indexOutOfBounds length index =>
    s!"index out of bounds: the len is {length} but the index is {index}"
  | .emptyWindow => "sequence length must be positive"
  | .pauseExceedsSlice pause slice =>
    "gc time " ++ Decimal.shortest pause ++ " does not fit into time slice " ++
      Decimal.shortest slice
  | .windowExhausted left => "MMU window exhausted with " ++ Decimal.shortest left ++ " left over"
  | .fullCollectionAsEvacuation => "full collections are not evacuation pauses"
  | .initialMarkBeforeMixed => "assertion failed: !state.in_young_gc_before_mixed()"
  | .pauseEndsBeforeStart finish start =>
    "pause ends (" ++ Decimal.shortest finish ++ ") before it starts (" ++
      Decimal.shortest start ++ ")"
  | .initialMarkRepeated => "initial mark recorded twice in a row"
  | .markingLengthUnknown => "no marking length measured yet"
  | .ageFromFuture index allocated => s!"age index {index} from the future (allocated {allocated})"
  | .ageNotCollected age regions => s!"age {age} not part of this collection ({regions} regions)"
  | .thresholdNotPercentage percent =>
    "initial IHOP value must be a percentage, is " ++ Decimal.shortest percent
  | .targetOccupancyMissing => "target occupancy must be set first"
  | .negativeAllocationTime time =>
    "allocation time must be non-negative, is " ++ Decimal.shortest time
  | .markingLengthNotPositive => "marking length must be positive"
  | .negativeMarkingLength length =>
    "marking length must be non-negative, is " ++ Decimal.shortest length
  | .liveExceedsUsed index live used =>
    s!"region {index} has more live ({live}) than used ({used}) bytes"
  | .youngCandidate index => s!"young region {index} is not a candidate"
  | .removalExceedsRemaining count remaining =>
    s!"removing {count} of {remaining} remaining candidates"
  | .emptyHeap => "heap must have at least one region"
  | .youngBoundsCrossed =>
    "assertion failed: self.min_desired_young_length <= self.max_desired_young_length"
  | .noRoomForEden minimum survivors =>
    s!"desired minimum {minimum} must leave room for eden on top of {survivors} survivors"
  | .emptyLengthRange low high => s!"invalid length range [{low}, {high}]"
  | .fixedYoungLength => "young list length is fixed"
  | .initialMarkLeftScheduled => "initial mark left scheduled by a previous pause"
  | .requestVanished => "marking request vanished at a safepoint"
  | .lastYoungStartsMarking =>
    "the last young collection before mixed ones cannot start marking"
  | .initialMarkWhileMarking => "an initial mark pause cannot happen while marking"
  | .noCandidates => "sizing old regions of a collection set without candidates"
  | .optionalOutsideMixed => "optional regions only exist in mixed collections"
  | .noOptionalCandidates => "optional evacuation without candidates"

end PauseGoal
