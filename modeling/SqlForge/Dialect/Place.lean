import SqlForge.Binding
import SqlForge.Dialect.Call

/-!
# Writing a value

A value is written directly if its text is fixed or is a call. Any other value leaves its
placeholder behind, which is filled when the statement is finished.
-/

namespace SqlForge.Dialect

/-- The text of a value that leaves nothing to fill in. -/
def direct? (d : Dialect) (v : Value) : Option Text :=
  if v.isNull then some "NULL".toList
  else if v.isEmptyText then some ['\'', '\'']
  else
    match v with
    | .bool b => some (if b then "TRUE" else "FALSE").toList
    | .text s => if isCall s then some (d.call s) else none
    | _ => none

/-- `body` as it stands for `v` in SQL: a number bare, anything else between quotes. -/
def dress (v : Value) (body : Text) : Text :=
  if v.isNumber then body else '\'' :: body ++ ['\'']

/-- `v` where its key is `key`. -/
def place (d : Dialect) (v : Value) (key : Text) : Text :=
  (d.direct? v).getD (dress v (placeholder key))

end SqlForge.Dialect
