import SqlForge.Text.Blank

/-!
# Numerals

A text is taken for a number if it is a numeral with blanks in front of it: an optional
sign, digits with at most one point among or around them, and an optional exponent.
Reading keeps every part as it is spelled, so a numeral can be written back.
-/

namespace SqlForge

structure Exponent where
  mark : Char
  sign : Option Char
  digits : Text
  deriving DecidableEq, Repr

structure Numeral where
  sign : Option Char
  whole : Text
  /-- The digits after the point; `none` if there is no point. -/
  fraction : Option Text
  exponent : Option Exponent
  deriving DecidableEq, Repr

namespace Numeral

def takeSign : Text → Option Char × Text
  | '+' :: s => (some '+', s)
  | '-' :: s => (some '-', s)
  | s => (none, s)

/-- The digits after a point at the head of `s`, and what follows them. -/
def takeFraction : Text → Option Text × Text
  | '.' :: s => (some (s.takeWhile Char.isDigit), s.dropWhile Char.isDigit)
  | s => (none, s)

/-- The exponent that all of `s` spells: `some none` if `s` is empty, `none` if it spells none. -/
def readExponent? : Text → Option (Option Exponent)
  | [] => some none
  | mark :: s =>
    let (sign, digits) := takeSign s
    if (mark = 'e' ∨ mark = 'E') ∧ digits ≠ [] ∧ digits.all Char.isDigit then
      some (some ⟨mark, sign, digits⟩)
    else none

def read? (s : Text) : Option Numeral :=
  let (sign, body) := takeSign s
  let whole := body.takeWhile Char.isDigit
  let (fraction, rest) := takeFraction (body.dropWhile Char.isDigit)
  if whole = [] ∧ fraction.getD [] = [] then none
  else (readExponent? rest).map fun exponent => ⟨sign, whole, fraction, exponent⟩

end Numeral

/-- Does `s` count as a number? Blanks may stand in front of the numeral, not behind it. -/
def isNumeral (s : Text) : Bool := (Numeral.read? (Text.trimStart Text.isBlank s)).isSome

end SqlForge
