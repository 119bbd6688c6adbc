import SqlForge.DateTime
import SqlForge.Double.Shortest
import SqlForge.Numeral

/-! # Values that a statement stores or compares -/

namespace SqlForge

inductive Value where
  | null
  | bool (b : Bool)
  | signed (n : Int64)
  | unsigned (n : UInt64)
  | double (d : Double)
  | text (s : Text)
  | dateTime (t : DateTime)
  deriving DecidableEq, Repr

namespace Value

def text? : Value → Option Text
  | text s => some s
  | _ => none

/-- The absent value, also when it is spelled out in capitals. -/
def isNull : Value → Bool
  | null => true
  | text s => s == "NULL".toList
  | _ => false

def isEmptyText : Value → Bool
  | text s => s.isEmpty
  | _ => false

/-- A number, or a text that counts as one. -/
def isNumber : Value → Bool
  | signed _ | unsigned _ | double _ => true
  | text s => isNumeral s
  | _ => false

/-- The characters of the value, with neither quotes nor escapes. -/
def raw : Value → Text
  | null => []
  | bool b => if b then ['1'] else ['0']
  | signed n => Text.integer n.toInt
  | unsigned n => Text.natural n.toNat
  | double d => d.text
  | text s => s
  | dateTime t => t.text

end Value

end SqlForge
