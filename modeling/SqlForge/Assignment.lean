import SqlForge.Template

/-! # Columns and the values that are written to them -/

namespace SqlForge

structure Assignment where
  column : Text
  value : Value
  deriving DecidableEq, Repr

namespace Assignment

/-- The value alone, as it stands among the values of an `INSERT`. -/
def placed (a : Assignment) : Template := [.slot ⟨a.column, a.value⟩]

/-- The column and its value, as they stand behind `SET`. -/
def set (d : Dialect) (a : Assignment) : Template :=
  [.text (d.quote a.column ++ " = ".toList), .slot ⟨a.column, a.value⟩]

end Assignment

end SqlForge
