import SqlForge.Double

/-!
# Shortest decimal text

A finite number is written with the fewest digits that no other number is nearer to. All the
real numbers that round to `m * 2 ^ q` form an interval; the ends belong to it if `m` is even.
For one digit, two digits and so on, the two decimals next to the number are tried; the first
count at which one of them lies in the interval is taken, and of two the nearer, or the upper
one halfway between them.

The layout is always positional: no exponent, and no point after a whole number.
-/

namespace SqlForge.Double

/-- The number of digits before the point of `num / den`, which is not zero; below one, zero or
less, counting the zeros behind the point. -/
def magnitude (num den : Nat) : Int :=
  if den ≤ num then (Text.natural (num / den)).length
  else 1 - (Text.natural ((den - 1) / num)).length

/-- The decimal `digits * 10 ^ power`. -/
structure Decimal where
  digits : Nat
  power : Int
  deriving DecidableEq, Repr

/-- The neighbour of `mantissa * 2 ^ power` on the grid of the multiples of `10 ^ grid` that is
to be written, if one of them rounds back to that number. The lower end of the interval is
`below` quarters of `2 ^ power` away, the upper end two quarters. -/
def neighbour? (mantissa : Nat) (power : Int) (below : Nat) (grid : Int) : Option Nat :=
  -- All quantities are multiplied by `4 * up / down` so that they become whole.
  let up := Nat.pow 2 (power - 2).toNat * Nat.pow 10 (-grid).toNat
  let down := Nat.pow 2 (2 - power).toNat * Nat.pow 10 grid.toNat
  let centre := 4 * mantissa * up
  let low := centre - below * up
  let high := centre + 2 * up
  let inside (n : Nat) : Bool :=
    if mantissa % 2 = 0 then low ≤ n * down && n * down ≤ high
    else low < n * down && n * down < high
  let n := centre / down
  match inside n, inside (n + 1) with
  | true, true => if 2 * centre < (2 * n + 1) * down then some n else some (n + 1)
  | true, false => some n
  | false, true => some (n + 1)
  | false, false => none

/-- The shortest decimal that rounds back to `mantissa * 2 ^ power`. Seventeen digits always
suffice. The number below a power of two is nearer than the one above it, unless both lie at the
least exponent. -/
def shortest (mantissa : Nat) (power : Int) : Decimal :=
  let below := if mantissa = hiddenBit ∧ -1074 < power then 1 else 2
  let top := magnitude (mantissa.shiftLeft power.toNat) (Nat.pow 2 (-power).toNat)
  let found := (List.range' 1 17).findSome? fun (count : Nat) =>
    let grid : Int := top - count
    (neighbour? mantissa power below grid).map fun digits => Decimal.mk digits grid
  found.getD ⟨0, 0⟩

/-- The positional text of a decimal. Zeros at the end of a fraction are dropped, and the point
with them if nothing is left behind it. -/
def Decimal.text (d : Decimal) : Text :=
  if 0 ≤ d.power then Text.natural (d.digits * Nat.pow 10 d.power.toNat)
  else
    let places := (-d.power).toNat
    let fraction := Text.trimEnd (· == '0') (Text.padded places (d.digits % Nat.pow 10 places))
    let whole := Text.natural (d.digits / Nat.pow 10 places)
    if fraction.isEmpty then whole else whole ++ '.' :: fraction

def text (d : Double) : Text :=
  match d.meaning with
  | .notANumber => "NaN".toList
  | .infinite negative => if negative then "-inf".toList else "inf".toList
  | .finite negative mantissa power =>
    let size := if mantissa = 0 then ['0'] else (shortest mantissa power).text
    if negative then '-' :: size else size

end SqlForge.Double
