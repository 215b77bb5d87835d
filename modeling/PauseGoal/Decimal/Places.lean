import PauseGoal.Decimal.Double

/-!
# Decimal text with a fixed number of places

The exact value of the double is rounded to the nearest multiple of `10^-places`; a value half way
between two multiples goes to the even one. The sign is kept even when all digits are zero.
-/

namespace PauseGoal.Decimal

/-- The whole number nearest to `p / q`, of two equally near ones the even one. -/
def divideToEven (p q : Nat) : Nat :=
  let below := p / q
  let twice := 2 * (p % q)
  if twice < q then below
  else if q < twice then below + 1
  else if below % 2 = 0 then below
  else below + 1

/-- `significand · 2^exponent` in units of `10^-places`, rounded to the nearest whole number. -/
def inPlaces (places significand : Nat) (exponent : Int) : Nat :=
  divideToEven (significand * twoTo exponent.toNat * tenTo places) (twoTo (-exponent).toNat)

/-- The text of a double with `places` digits after the point. -/
def fixed (places : Nat) (x : Float) : String :=
  match Double.ofFloat x with
  | .undefined => undefinedText
  | .infinite negative => infiniteText negative
  | .finite negative significand exponent =>
    signText negative ++ pointed (inPlaces places significand exponent) places

end PauseGoal.Decimal
