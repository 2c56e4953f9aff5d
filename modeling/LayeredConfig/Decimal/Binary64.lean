/-!
# Decimals and binary floating-point numbers

Numbers without a sign: decimals as they are written, and the numbers that a double-precision float
can hold. A decimal becomes the nearest of those, and a tie goes to the even significand.
-/

namespace LayeredConfig

/-- The number `coefficient * 10 ^ exponent`. -/
structure Decimal where
  coefficient : Nat
  exponent : Int
deriving DecidableEq, Repr

/-- The number `significand * 2 ^ exponent`, with a significand of at most 53 bits. -/
structure Binary64 where
  significand : Nat
  exponent : Int
deriving DecidableEq, Repr

namespace Binary64

def minExponent : Int := -1074

def maxExponent : Int := 971

def zero : Binary64 := ⟨0, minExponent⟩

/-- The integer nearest to a quotient. -/
def roundQuotient (num den : Nat) : Nat :=
  let floor := num / den
  let twice := 2 * (num % den)
  if twice < den then floor
  else if den < twice then floor + 1
  else floor + floor % 2

/-- The exponent of the greatest power of two that a quotient reaches. -/
def logQuotient (num den : Nat) : Int :=
  let estimate : Int := (num.log2 : Int) - den.log2
  if den * Nat.pow 2 estimate.toNat ≤ num * Nat.pow 2 (-estimate).toNat then estimate else estimate - 1

/-- The number nearest to a quotient that is not zero, or nothing above the greatest number. -/
def ofQuotient? (num den : Nat) : Option Binary64 :=
  let exponent := max (logQuotient num den - 52) minExponent
  let significand := roundQuotient (num * Nat.pow 2 (-exponent).toNat) (den * Nat.pow 2 exponent.toNat)
  let x : Binary64 :=
    if significand = Nat.pow 2 53 then ⟨Nat.pow 2 52, exponent + 1⟩ else ⟨significand, exponent⟩
  if x.exponent ≤ maxExponent then some x else none

end Binary64

/-- How many digits stand before the point when the first of them is not zero. -/
def Decimal.magnitude (d : Decimal) : Int :=
  (Nat.toDigits 10 d.coefficient).length + d.exponent

/-- The nearest double-precision number. Magnitudes far outside the range need no arithmetic. -/
def Decimal.toBinary64? (d : Decimal) : Option Binary64 :=
  if d.coefficient = 0 || d.magnitude < -400 then some Binary64.zero
  else if 400 < d.magnitude then none
  else Binary64.ofQuotient? (d.coefficient * Nat.pow 10 d.exponent.toNat) (Nat.pow 10 (-d.exponent).toNat)

end LayeredConfig
