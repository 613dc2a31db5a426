/-!
# Decimal text of binary numbers

A finite non-negative binary64 number is `m * 2 ^ e` for whole `m` and `e`, so its decimal places are found
in exact arithmetic.
-/

namespace PagedIndex.Decimal

/-- The quotient rounded to the nearest whole number, a tie to the even one. -/
def roundDiv (numerator denominator : Nat) : Nat :=
  let quotient := numerator / denominator
  let rest := 2 * (numerator % denominator)
  if denominator < rest ∨ (rest = denominator ∧ quotient % 2 = 1) then quotient + 1 else quotient

/-- The fraction that the bits of a finite non-negative binary64 number stand for. -/
def fractionOfBits (bits : UInt64) : Nat × Nat :=
  let significand := bits.toNat % Nat.pow 2 52
  let exponent := bits.toNat / Nat.pow 2 52 % Nat.pow 2 11
  if exponent = 0 then (significand, Nat.pow 2 1074)
  else if 1075 ≤ exponent then ((significand + Nat.pow 2 52) * Nat.pow 2 (exponent - 1075), 1)
  else (significand + Nat.pow 2 52, Nat.pow 2 (1075 - exponent))

/-- A number of hundredths with two decimal places. -/
def ofHundredths (count : Nat) : String :=
  let cents := count % 100
  toString (count / 100) ++ "." ++ (if cents < 10 then "0" else "") ++ toString cents

/-- A finite non-negative binary64 number with two decimal places. -/
def twoPlaces (value : Float) : String :=
  let (numerator, denominator) := fractionOfBits value.toBits
  ofHundredths (roundDiv (100 * numerator) denominator)

end PagedIndex.Decimal
