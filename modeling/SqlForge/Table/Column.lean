import SqlForge.Table.Error
import SqlForge.Text.Blank

/-!
# Columns of a table
-/

namespace SqlForge

inductive ColumnType where
  | integer
  | text
  | enum (options : List Text)
  | dateTime
  | timestamp
  | date
  | time
  | float
  | blob
  | year
  deriving DecidableEq, Repr

namespace ColumnType

/-- The names of the types in lower case. An enumeration gets its options elsewhere. -/
def names : List (Text × ColumnType) :=
  [("integer".toList, integer), ("int".toList, integer),
   ("string".toList, text), ("text".toList, text), ("char".toList, text), ("varchar".toList, text),
   ("enum".toList, enum []), ("datetime".toList, dateTime), ("timestamp".toList, timestamp),
   ("date".toList, date), ("time".toList, time), ("float".toList, float), ("blob".toList, blob),
   ("year".toList, year)]

def named (name : Text) : Except TableError ColumnType :=
  match names.lookup (Text.lower (Text.strip name)) with
  | some t => .ok t
  | none => .error (.unknownType name)

/-- The length of a column that does not give one. -/
def usualLength : ColumnType → UInt32
  | text => 255
  | _ => 10

end ColumnType

inductive KeyKind where
  | primary
  | unique
  | index
  deriving DecidableEq, Repr

structure Column where
  name : Text
  type : ColumnType
  length : Option UInt32
  nullable : Bool
  unsigned : Bool
  /-- Shown only if the column is unsigned too. -/
  zerofill : Bool
  autoIncrement : Bool
  default : Option Text
  comment : Option Text
  key : Option KeyKind
  deriving DecidableEq, Repr

end SqlForge
