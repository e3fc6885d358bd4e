/-!
# Binary floating point numbers

The numbers of the 64-bit binary format, held exactly: a sign, a mantissa of up to 53 bits and a
power of two, besides the two infinities and the value that is no number.

* `Double` — the type; `isZero` tells the two zeros from the rest.
* `roundDiv` — a quotient rounded to the nearest whole number, a tie to the even one.
* `Double.ofDecimal` — the number nearest to a decimal.
-/

namespace StyleCascade

/-- A number of the 64-bit binary format. -/
inductive Double where
  /-- The number `± mantissa · 2 ^ exponent`. -/
  | finite (negative : Bool) (mantissa : Nat) (exponent : Int)
  /-- One of the infinities. -/
  | infinite (negative : Bool)
  /-- No number. -/
  | nan
  deriving Repr, DecidableEq, Inhabited

namespace Double

/-- The number of bits of a mantissa. -/
def mantissaBits : Nat := 53

/-- The least exponent, that of the zeros and of the numbers next to them. -/
def minExponent : Int := -1074

/-- The greatest exponent. -/
def maxExponent : Int := 971

/-- One of the two zeros. -/
def zero (negative : Bool) : Double := .finite negative 0 minExponent

/-- Whether a number is one of the two zeros. -/
def isZero : Double → Bool
  | finite _ mantissa _ => mantissa == 0
  | _ => false

end Double

/-- The whole number nearest to `n / d`; half-way between two it is the even one. -/
def roundDiv (n d : Nat) : Nat :=
  let q := n / d
  let twice := 2 * (n % d)
  if twice < d || (twice == d && q % 2 == 0) then q else q + 1

/-- The numerator and the denominator of `n · base ^ e`. -/
def scaled (n base : Nat) (e : Int) : Nat × Nat :=
  if 0 ≤ e then (n * base.pow e.toNat, 1) else (n, base.pow (-e).toNat)

/-- The number of digits that a natural number has in decimal. -/
def decimalLength (n : Nat) : Nat := (Nat.toDigits 10 n).length

namespace Double

/-- The number nearest to `± n / d`, where neither `n` nor `d` is zero. -/
def ofRatio (negative : Bool) (n d : Nat) : Double :=
  let estimate : Int := n.log2 - d.log2
  let (low, unit) := scaled d 2 estimate
  -- the place of the leading bit of the quotient
  let leading := if low ≤ n * unit then estimate else estimate - 1
  let exponent := max (leading - (mantissaBits - 1)) minExponent
  let (shifted, below) := scaled n 2 (-exponent)
  let mantissa := roundDiv shifted (d * below)
  let (mantissa, exponent) :=
    if mantissa == Nat.pow 2 mantissaBits then (Nat.pow 2 (mantissaBits - 1), exponent + 1)
    else (mantissa, exponent)
  if maxExponent < exponent then .infinite negative else .finite negative mantissa exponent

/-- The number nearest to `± digits · 10 ^ exponent`.  Decimals of more than 310 digits before
the point are infinite, and those with more than 330 zeros behind it are zero. -/
def ofDecimal (negative : Bool) (digits : Nat) (exponent : Int) : Double :=
  let magnitude := decimalLength digits + exponent
  if digits == 0 || magnitude < -330 then zero negative
  else if 310 < magnitude then .infinite negative
  else
    let (n, d) := scaled digits 10 exponent
    ofRatio negative n d

example : ofDecimal false 1 0 = .finite false (2 ^ 52) (-52) := by decide +kernel

example : ofDecimal true 5 (-324) = .finite true 1 (-1074) := by decide +kernel

end Double

end StyleCascade
