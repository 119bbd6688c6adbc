import SqlForge.Text

/-!
# Binary floating-point numbers

A number of 64 bits in the interchange format: one bit of sign, eleven of exponent, fifty-two
of fraction. The program stores such numbers and writes them down, but does not calculate with
them, so the bits are the number.
-/

namespace SqlForge

structure Double where
  bits : UInt64
  deriving DecidableEq, Repr

namespace Double

/-- What the bits stand for; a finite number is `mantissa * 2 ^ power`. -/
inductive Meaning where
  | notANumber
  | infinite (negative : Bool)
  | finite (negative : Bool) (mantissa : Nat) (power : Int)
  deriving DecidableEq, Repr

/-- The place of the bit that is hidden where the exponent is not zero. -/
def hiddenBit : Nat := Nat.pow 2 52

/-- The sign, the exponent and the fraction of a word with fields of the given widths. -/
def split (exponentWidth fractionWidth word : Nat) : Bool × Nat × Nat :=
  (word.testBit (exponentWidth + fractionWidth),
    word.shiftRight fractionWidth % Nat.pow 2 exponentWidth, word % Nat.pow 2 fractionWidth)

def meaning (d : Double) : Meaning :=
  let (negative, exponent, fraction) := split 11 52 d.bits.toNat
  if exponent = 2047 then if fraction = 0 then .infinite negative else .notANumber
  else if exponent = 0 then .finite negative fraction (-1074)
  else .finite negative (hiddenBit + fraction) (exponent - 1075)

def ofFields (negative : Bool) (exponent fraction : Nat) : Double :=
  ⟨UInt64.ofNat ((negative.toNat.shiftLeft 11 + exponent).shiftLeft 52 + fraction)⟩

/-- The number that thirty-two bits stand for: one of sign, eight of exponent, twenty-three of
fraction. Each such number is one of sixty-four bits too. -/
def ofSingle (bits : UInt32) : Double :=
  let (negative, exponent, fraction) := split 8 23 bits.toNat
  if exponent = 255 then ofFields negative 2047 (fraction.shiftLeft 29)
  else if exponent ≠ 0 then ofFields negative (exponent + 896) (fraction.shiftLeft 29)
  else if fraction = 0 then ofFields negative 0 0
  else
    -- The leading bit of a number below the least exponent moves to the hidden place.
    let width := fraction.log2
    ofFields negative (width + 874) ((fraction - Nat.pow 2 width).shiftLeft (52 - width))

end Double

end SqlForge
