import StyleCascade.Number.Double

/-!
# The shortest decimal of a number

A number is written with the fewest decimal digits that read back as the same number, and of
those with the digits nearest to it.  Numbers from `1e-4` up to `1e16` are written without an
exponent and with at least one digit behind the point.

* `Double.shortest` — the digits and the place of the point.
* `Double.text` — the written form.
-/

namespace StyleCascade

/-- The digits of a decimal without trailing zeros, `0.d₁d₂… · 10 ^ point`. -/
structure DecimalDigits where
  digits : Nat
  point : Int
  deriving Repr, DecidableEq

namespace Double

/-- The multiples of `10 ^ grid` next to a positive number `m · 2 ^ e` that read back as the
same number, the nearer one first. -/
def nearestOnGrid? (m : Nat) (e grid : Int) : Option Nat :=
  -- all numbers below are multiples of a quarter of the unit of the mantissa
  let (a, b) := scaled 1 2 (e - 2)
  let (g, h) := scaled 1 10 grid
  let low := if m == Nat.pow 2 (mantissaBits - 1) && e != minExponent then 4 * m - 1 else 4 * m - 2
  let high := 4 * m + 2
  let closed := m % 2 == 0
  let readsBack (c : Nat) : Bool :=
    let x := c * g * b
    if closed then low * a * h ≤ x && x ≤ high * a * h else low * a * h < x && x < high * a * h
  let v := 4 * m * a * h
  let unit := b * g
  let below := v / unit
  let nearest := roundDiv v unit
  if readsBack nearest then some nearest
  else if readsBack below then some below
  else if readsBack (below + 1) then some (below + 1)
  else none

/-- A number of digits without its trailing zeros. -/
def dropTrailingZeros (fuel n : Nat) : Nat :=
  match fuel with
  | 0 => n
  | fuel + 1 => if n % 10 == 0 then dropTrailingZeros fuel (n / 10) else n

/-- The fewest digits of a positive number `m · 2 ^ e` that read back as the number, and of
those the nearest. -/
def shortest (m : Nat) (e : Int) : DecimalDigits :=
  let (n, d) := scaled m 2 e
  -- enough places behind the point for the least number to have digits
  let places : Nat := 400
  let point : Int := decimalLength (n * Nat.pow 10 places / d) - places
  let digits := (List.range 17).findSome? fun (fewer : Nat) =>
    (nearestOnGrid? m e (point - fewer - 1)).map fun c => (c, fewer + 1)
  match digits with
  | some (c, count) =>
    -- rounding up may have carried into one digit more
    let point := point + (decimalLength c - count)
    ⟨dropTrailingZeros 17 c, point⟩
  | none => ⟨m, point⟩

/-- A given number of zeros. -/
def zeros (n : Int) : String := "".pushn '0' n.toNat

/-- The least and the first too great exponent of the numbers that are written without one. -/
def positionalExponents : Int × Int := (-4, 16)

/-- The exponent of a number in the form with an exponent: its sign and two digits or more. -/
def exponentText (e : Int) : String :=
  let digits := toString e.natAbs
  (if e < 0 then "e-" else "e+") ++ (if digits.length < 2 then "0" else "") ++ digits

/-- The written form of a positive number. -/
def magnitudeText (d : DecimalDigits) : String :=
  let digits := toString d.digits
  let e := d.point - 1
  if positionalExponents.1 ≤ e && e < positionalExponents.2 then
    if d.point ≤ 0 then "0." ++ zeros (-d.point) ++ digits
    else if (digits.length : Int) ≤ d.point then
      digits ++ zeros (d.point - digits.length) ++ ".0"
    else
      String.ofList (digits.toList.take d.point.toNat) ++ "." ++
        String.ofList (digits.toList.drop d.point.toNat)
  else
    let rest := digits.toList.drop 1
    String.ofList (digits.toList.take 1) ++
      (if rest.isEmpty then "" else "." ++ String.ofList rest) ++ exponentText e

/-- The written form of a number: the shortest decimal that reads back as it. -/
def text : Double → String
  | finite negative m e =>
    (if negative then "-" else "") ++ if m == 0 then "0.0" else magnitudeText (shortest m e)
  | infinite negative => if negative then "-inf" else "inf"
  | nan => "nan"

example : (ofDecimal false 1 (-1)).text = "0.1" := by decide +kernel

example : (ofDecimal false 123 20).text = "1.23e+22" := by decide +kernel

example : (ofDecimal true 5 (-324)).text = "-5e-324" := by decide +kernel

end Double

end StyleCascade
