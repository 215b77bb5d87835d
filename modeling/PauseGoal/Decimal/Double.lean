/-!
# The value of a double

A finite double is `± m · 2^e` for a whole number `m` below `2^53`. Decimal text is computed from
that pair in whole-number arithmetic, so no rounding happens before the one that the text asks for.
-/

namespace PauseGoal.Decimal

/-- What a double stands for. -/
inductive Double where
  | undefined
  /-- An infinity; `negative` gives its sign. -/
  | infinite (negative : Bool)
  /-- The number `± significand · 2^exponent`. -/
  | finite (negative : Bool) (significand : Nat) (exponent : Int)
deriving DecidableEq, Repr

def twoTo (n : Nat) : Nat := Nat.pow 2 n

def tenTo (n : Nat) : Nat := Nat.pow 10 n

/-- Reads the sign, the eleven exponent bits and the fifty-two fraction bits of a double. -/
def Double.ofBits (bits : UInt64) : Double :=
  let word : Nat := bits.toNat
  let negative := decide (twoTo 63 ≤ word)
  let biased : Nat := word / twoTo 52 % twoTo 11
  let fraction : Nat := word % twoTo 52
  if biased = 2047 then
    if fraction = 0 then .infinite negative else .undefined
  else if biased = 0 then .finite negative fraction (-1074)
  else .finite negative (twoTo 52 + fraction) (Int.ofNat biased - 1075)

def Double.ofFloat (x : Float) : Double := .ofBits x.toBits

/-- The sign in front of a number's text. -/
def signText (negative : Bool) : String := if negative then "-" else ""

/-- The text of a value that is no number. -/
def undefinedText : String := "NaN"

/-- The text of an infinity. -/
def infiniteText (negative : Bool) : String := signText negative ++ "inf"

/-- `n` ciphers. -/
def ciphers (n : Nat) : List Char := List.replicate n '0'

def digits (n : Nat) : List Char := Nat.toDigits 10 n

/-- The digits of `n` with the point moved `places` to the left; at least one digit stays in
front. -/
def pointed (n places : Nat) : String :=
  if places = 0 then String.ofList (digits n)
  else
    let padded := ciphers (places + 1 - (digits n).length) ++ digits n
    let whole := padded.length - places
    String.ofList (padded.take whole ++ '.' :: padded.drop whole)

end PauseGoal.Decimal
