import SqlForge.Numeral

/-!
# Whole part of a numeral

A numeral without point and exponent stands for itself as long as it fits into 64 bits. Any
other numeral is first rounded to the nearest binary floating-point number of 53 significant
bits, then cut to its whole part. What lies outside the 64-bit integers becomes the nearest of
them, and so does infinity, which has a name in place of digits.
-/

namespace SqlForge

/-- The natural number nearest to `num / den`; halfway, the even one. -/
def roundDiv (num den : Nat) : Nat :=
  let q := num / den
  let r := num % den
  if den < 2 * r ∨ (den = 2 * r ∧ q % 2 = 1) then q + 1 else q

def bitLength (n : Nat) : Nat := if n = 0 then 0 else n.log2 + 1

/-- The whole part of `num / den` rounded to 53 significant bits. Below one half the rounding may
keep fewer bits, which does not change the whole part. -/
def binaryFloor (num den : Nat) : Nat :=
  let width := bitLength (num / den)
  if width ≤ 53 then roundDiv (num.shiftLeft (53 - width)) den / Nat.pow 2 (53 - width)
  else (roundDiv num (den.shiftLeft (width - 53))).shiftLeft (width - 53)

def clampInt64 (z : Int) : Int64 :=
  if z < Int64.minValue.toInt then Int64.minValue
  else if Int64.maxValue.toInt < z then Int64.maxValue
  else Int64.ofInt z

namespace Numeral

def mantissa (n : Numeral) : Nat := Nat.ofDigitChars 10 (n.whole ++ n.fraction.getD []) 0

def scale (n : Numeral) : Int :=
  let places : Int := (n.fraction.getD []).length
  match n.exponent with
  | none => -places
  | some e =>
    let size : Int := Nat.ofDigitChars 10 e.digits 0
    (if e.sign = some '-' then -size else size) - places

/-- The whole part of `m * 10 ^ e` after rounding. A product of twenty-one digits or more is
beyond every 64-bit integer, and one below a tenth has no whole part, so that the power need not
be formed for them. -/
def magnitude (m : Nat) (e : Int) : Nat :=
  let size : Int := (Text.natural m).length + e
  if m = 0 ∨ size < 0 then 0
  else if 20 < size then UInt64.size
  else binaryFloor (m * Nat.pow 10 e.toNat) (Nat.pow 10 (-e).toNat)

def truncate (n : Numeral) : Int64 :=
  let size :=
    if n.fraction = none ∧ n.exponent = none then n.mantissa else magnitude n.mantissa n.scale
  clampInt64 (if n.sign = some '-' then -size else size)

end Numeral

def namesInfinity (s : Text) : Bool :=
  Text.sameLetters s "inf".toList || Text.sameLetters s "infinity".toList

/-- The whole number for what `s` spells, zero if that is no number. -/
def wholeNumber (s : Text) : Int64 :=
  match Numeral.read? s with
  | some n => n.truncate
  | none =>
    let (sign, word) := Numeral.takeSign s
    if namesInfinity word then
      if sign = some '-' then Int64.minValue else Int64.maxValue
    else 0

end SqlForge
