/-!
Numbers with a fixed count of decimal places. The exact value of the binary number is rounded to the nearest
decimal, and a tie goes to the even neighbour.
-/
namespace Gloss.Decimal

/-- The quotient rounded to the nearest whole number, ties to the even one. -/
def roundDiv (num den : Nat) : Nat :=
  let q := num / den
  let r := num % den
  if den < 2 * r then q + 1
  else if 2 * r = den && q % 2 = 1 then q + 1
  else q

/-- A whole number of units of `10 ^ -places` as a decimal. -/
def ofUnits (places : Nat) (units : Nat) : String :=
  let digits := Nat.toDigits 10 units
  let digits := List.replicate (places + 1 - digits.length) '0' ++ digits
  let whole := digits.take (digits.length - places)
  String.ofList (whole ++ ['.'] ++ digits.drop (digits.length - places))

/-- Absolute value of a binary number with mantissa and exponent, in units of `10 ^ -places`. -/
def unitsOf (places mantissa : Nat) (exponent : Int) : Nat :=
  let scaled := mantissa * Nat.pow 10 places
  match exponent with
  | .ofNat e => scaled * Nat.pow 2 e
  | .negSucc e => roundDiv scaled (Nat.pow 2 (e + 1))

/-- The sign bit of a number of 64 bits. -/
def signBit : Nat := 0x8000000000000000

/-- The leading bit of the mantissa, which is not stored; the 52 bits below it are. -/
def leadingBit : Nat := 0x10000000000000

/-- How many exponents there are; zero is the exponent of numbers without a leading bit. -/
def exponentCount : Nat := 0x800

/-- A number with `places` decimal places. -/
def fixed (places : Nat) (x : Float) : String :=
  if x.isNaN then "NaN"
  else
    let bits := x.toBits.toNat
    let sign := if signBit ≤ bits then "-" else ""
    if x.isInf then sign ++ "inf"
    else
      let biased : Nat := bits / leadingBit % exponentCount
      let fraction : Nat := bits % leadingBit
      let (mantissa, exponent) : Nat × Int :=
        if biased = 0 then (fraction, -1074) else (fraction + leadingBit, (biased : Int) - 1075)
      sign ++ ofUnits places (unitsOf places mantissa exponent)

/-- A score has six decimal places. -/
def score (x : Float) : String := fixed 6 x

end Gloss.Decimal
