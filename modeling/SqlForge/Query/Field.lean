import SqlForge.Dialect

/-! # The list of a selection -/

namespace SqlForge

inductive Field where
  /-- A column, or a column with another name for it behind `AS`. -/
  | column (expression : Text)
  /-- Columns of the table that goes by `qualifier`. -/
  | table (qualifier : Text) (columns : List Text)
  deriving DecidableEq, Repr

def Field.expressions : Field → List Text
  | column expression => [expression]
  | table qualifier columns => columns.map fun c => qualifier ++ '.' :: c

namespace Dialect

/-- An expression of a selection, cut at its first `AS` if it has one. -/
def expression (d : Dialect) (s : Text) : Text :=
  match Text.cutWord? " AS ".toList s with
  | some (source, name) => d.quote source ++ " AS ".toList ++ d.quote name
  | none => d.quote s

def fields (d : Dialect) (fs : List Field) : List Text :=
  (fs.flatMap Field.expressions).map d.expression

end Dialect

end SqlForge
