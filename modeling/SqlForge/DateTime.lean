import SqlForge.Text

/-! # Dates and times of day, without a time zone -/

namespace SqlForge

structure DateTime where
  year : Int
  month : Nat
  day : Nat
  hour : Nat
  minute : Nat
  second : Nat
  nanosecond : Nat
  deriving DecidableEq, Repr

namespace DateTime

/-- The year has four digits at least, and a minus sign before the first year. -/
def yearText (year : Int) : Text :=
  (if year < 0 then ['-'] else []) ++ Text.padded 4 year.natAbs

/-- `year-month-day hour:minute:second`; fractions of a second are not written. -/
def text (t : DateTime) : Text :=
  yearText t.year ++ '-' :: Text.padded 2 t.month ++ '-' :: Text.padded 2 t.day ++
    ' ' :: Text.padded 2 t.hour ++ ':' :: Text.padded 2 t.minute ++ ':' :: Text.padded 2 t.second

end DateTime

end SqlForge
