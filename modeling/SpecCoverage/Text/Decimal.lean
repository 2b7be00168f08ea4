/-!
# Decimal numbers

Numbers of double precision with one decimal place: the exact value, rounded to the nearest tenth, a tie
going to the even one.
-/

namespace SpecCoverage.Text

/-- The nearest whole number to a quotient; a tie goes to the even one. -/
def nearest (numerator denominator : Nat) : Nat :=
  let quotient := numerator / denominator
  let twice := 2 * (numerator % denominator)
  if twice < denominator then quotient
  else if twice = denominator then quotient + quotient % 2
  else quotient + 1

/-- Tenths of `significand * 2 ^ (exponent - 1075)`. -/
def tenthsOf (significand exponent : Nat) : Nat :=
  nearest (10 * significand * Nat.pow 2 exponent) (Nat.pow 2 1075)

/-- A number that is finite and not negative, in tenths. -/
def tenths (value : Float) : Nat :=
  let bits := value.toBits.toNat
  let hidden := Nat.pow 2 52
  let exponent := bits / hidden % Nat.pow 2 11
  let fraction := bits % hidden
  if exponent = 0 then tenthsOf fraction 1 else tenthsOf (hidden + fraction) exponent

/-- A number that is finite and not negative, with one decimal place. -/
def withOnePlace (value : Float) : String :=
  let n := tenths value
  Nat.repr (n / 10) ++ "." ++ Nat.repr (n % 10)

end SpecCoverage.Text
