import PauseGoal.Scalar
import PauseGoal.Decimal.Places

/-!
# Sizes for readers

A size below one kilobyte is written in bytes. Larger ones are written with one decimal place in the
largest of kilo-, mega- and gigabytes that makes the number at least one.
-/

namespace PauseGoal

/-- A number of bytes as a reader wants it. -/
def byteSizeText (bytes : Nat) : String :=
  let kilo : Float := num bytes / num 1024
  let mega := kilo / num 1024
  let giga := mega / num 1024
  if kilo < num 1 then s!"{bytes}B"
  else if mega < num 1 then Decimal.fixed 1 kilo ++ "K"
  else if giga < num 1 then Decimal.fixed 1 mega ++ "M"
  else Decimal.fixed 1 giga ++ "G"

end PauseGoal
