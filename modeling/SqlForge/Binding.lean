import SqlForge.Call
import SqlForge.Value

/-!
# Values under a key

While a statement is written, each of its values has a key. The text of the statement refers to
the value by its placeholder, the key between colons.
-/

namespace SqlForge

structure Binding where
  key : Text
  value : Value
  deriving DecidableEq, Repr

/-- The place of the value with the given key in the text of a statement. -/
def placeholder (key : Text) : Text := ':' :: key ++ [':']

/-- What is written for a value between its quotes, or without quotes. A call is not escaped,
and padding is cut from both ends after escaping. -/
def Value.filling (escape? : Option (Text → Text)) (v : Value) : Text :=
  Text.trim Text.isPadding <|
    match escape? with
    | some escape => if isCall v.raw then v.raw else escape v.raw
    | none => v.raw

namespace Binding

/-- A key of digits only counts positions and has no placeholder. -/
def isOrdinal (b : Binding) : Bool := !b.key.isEmpty && b.key.all Char.isDigit

def placeholder (b : Binding) : Text := SqlForge.placeholder b.key

end Binding

end SqlForge
