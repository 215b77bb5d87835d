import PauseGoal.Decimal.Double

/-!
# The shortest decimal text of a double

A double stands for all reals that round to it: the interval that ends half way to its neighbours,
ends included exactly when its significand is even. The text is the decimal number in that interval
with the fewest digits; of several such numbers it is the one nearest to the double, and of two
equally near ones the larger. It is written out in full, without an exponent and without a point
when the number is whole.

The grid of multiples of `10^k` has a point in the interval only if one of the double's two
neighbours on the grid lies in it, so each grid is settled by looking at two points.
-/

namespace PauseGoal.Decimal

/-- A positive interval of decimal candidates around `value / unit`; `low`, `value` and `high` are
all in the same unit. -/
structure Neighbourhood where
  low : Nat
  value : Nat
  high : Nat
  unit : Nat
  closed : Bool
deriving DecidableEq, Repr

/-- The reals that round to `significand · 2^exponent`. Below the least significand of a binary
exponent the next double is only half as far away, except at the bottom of the exponent range. -/
def Neighbourhood.of (significand : Nat) (exponent : Int) : Neighbourhood :=
  let scale := twoTo (exponent - 2).toNat
  let below := if significand = twoTo 52 ∧ (-1074 : Int) < exponent then 1 else 2
  { low := (4 * significand - below) * scale
    value := 4 * significand * scale
    high := (4 * significand + 2) * scale
    unit := twoTo (2 - exponent).toNat
    closed := significand % 2 = 0 }

/-- Whether `p / q` lies in the neighbourhood. -/
def Neighbourhood.contains (near : Neighbourhood) (p q : Nat) : Bool :=
  if near.closed then near.low * q ≤ p * near.unit ∧ p * near.unit ≤ near.high * q
  else near.low * q < p * near.unit ∧ p * near.unit < near.high * q

/-- The point of the grid of multiples of `p / q` that is in the neighbourhood and nearest to its
value, as a multiple; the larger of two equally near ones. -/
def Neighbourhood.onGrid (near : Neighbourhood) (p q : Nat) : Option Nat :=
  let numerator := near.value * q
  let denominator := near.unit * p
  let below := numerator / denominator
  let rest := numerator % denominator
  let lowFits := near.contains (below * p) q
  let highFits := near.contains ((below + 1) * p) q
  match lowFits, highFits with
  | false, false => none
  | true, false => some below
  | false, true => some (below + 1)
  | true, true => some (if 2 * rest < denominator then below else below + 1)

/-- The nearest point on the grid of multiples of `10^k`. -/
def Neighbourhood.onDecimalGrid (near : Neighbourhood) (k : Int) : Option Nat :=
  near.onGrid (tenTo k.toNat) (tenTo (-k).toNat)

/-- An exponent above that of the first digit: no point of its grid but zero is below the value. -/
def Neighbourhood.topExponent (near : Neighbourhood) : Int :=
  if near.unit ≤ near.value then (digits (near.value / near.unit)).length + 1
  else 2 - ((digits (near.unit / near.value)).length : Int)

/-- The digits of the shortest decimal in the neighbourhood and the exponent of the last one.
Seventeen digits always tell a double from its neighbours, so twenty grids are enough. -/
def Neighbourhood.shortest (near : Neighbourhood) : Option (Nat × Int) :=
  (List.range 20).findSome? fun (i : Nat) =>
    let k := near.topExponent - Int.ofNat i
    (near.onDecimalGrid k).map fun n => (n, k)

/-- `n · 10^k` written out. -/
def positional (n : Nat) (k : Int) : String :=
  pointed (n * tenTo k.toNat) (-k).toNat

/-- The text of a double with the fewest digits that tell it from all others. -/
def shortest (x : Float) : String :=
  match Double.ofFloat x with
  | .undefined => undefinedText
  | .infinite negative => infiniteText negative
  | .finite negative significand exponent =>
    if significand = 0 then signText negative ++ "0"
    else
      match (Neighbourhood.of significand exponent).shortest with
      | some (n, k) => signText negative ++ positional n k
      | none => signText negative ++ pointed (significand * twoTo exponent.toNat) 0

end PauseGoal.Decimal
