/-!
# Decimals of a fixed number of places

The decimal text of a double-precision number, rounded from its exact value.  A
half goes to the even neighbour.
-/

namespace RankExchange.Decimal

/-- The integer nearest to a quotient; of two it is the even one. -/
def roundHalfEven (numerator denominator : Nat) : Nat :=
  let quotient := numerator / denominator
  let twice := 2 * (numerator % denominator)
  if twice < denominator ∨ twice = denominator ∧ quotient % 2 = 0 then quotient
  else quotient + 1

/-- The magnitude of a finite number in units of the last decimal place. -/
def units (places exponent mantissa : Nat) : Nat :=
  let significand := if exponent = 0 then mantissa else 1 <<< 52 + mantissa
  let power := max exponent 1
  roundHalfEven ((significand * Nat.pow 10 places) <<< (power - 1075)) (1 <<< (1075 - power))

/-- A number of units as an integer part, a point and the given places. -/
def point (places units : Nat) : String :=
  let digits := toString (units % Nat.pow 10 places)
  s!"{units / Nat.pow 10 places}." ++ "".pushn '0' (places - digits.length) ++ digits

/-- The text of a number that is given by its bits. -/
def fixed (places : Nat) (bits : UInt64) : String :=
  let exponent := bits.toNat >>> 52 % 2048
  let mantissa := bits.toNat % 1 <<< 52
  let sign := if bits.toNat < 1 <<< 63 then "" else "-"
  if exponent = 2047 then
    if mantissa = 0 then sign ++ "inf" else "NaN"
  else sign ++ point places (units places exponent mantissa)

end RankExchange.Decimal
