import SqlForge.Call
import SqlForge.Dialect
import SqlForge.Numeral.Truncate
import SqlForge.Text.UpperCase

/-!
# Calls in a dialect

A call is taken apart and put together again, so that each argument is a string literal of the
dialect, a whole number, or an identifier.
-/

namespace SqlForge

def isQuoted (s : Text) : Bool :=
  2 ≤ s.length && s.head? == some '\'' && s.getLast? == some '\''

/-- Does `s` pass for a call without arguments? That is so if it has no lower-case letter and
ends in empty brackets. -/
def isBareCall (s : Text) : Bool := Text.upper s == s && "()".toList.isSuffixOf s

namespace Dialect

/-- The whole number for a numeral among the arguments. An escape may have made it something else. -/
def wholeArgument (d : Dialect) (s : Text) : Text :=
  Text.integer (wholeNumber (Text.strip (d.escape s))).toInt

/-- A string in quotes is escaped anew, a numeral is cut to a whole number, and anything else is
the name of a column. -/
def argument (d : Dialect) (s : Text) : Text :=
  if isQuoted s then
    let body := Text.trim (· == '\'') s
    if body.isEmpty then ['\'', '\''] else d.literal body
  else if isNumeral s then d.wholeArgument s
  else d.quote s

/-- The arguments stand between commas; blank ones are left out. -/
def arguments (d : Dialect) (s : Text) : List Text :=
  (((s.splitOn ',').map Text.strip).filter (!·.isEmpty)).map d.argument

/-- The call that `s` stands for, in SQL. What is no call is the name of one without arguments,
up to its first bracket. -/
def call (d : Dialect) (s : Text) : Text :=
  if isBareCall s then s
  else
    match Call.read? s with
    | some c => c.name ++ '(' :: Text.join ", ".toList (d.arguments c.arguments) ++ [')']
    | none => s.takeWhile (· != '(') ++ "()".toList

end Dialect

end SqlForge
