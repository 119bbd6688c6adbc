import SqlForge.Command.Error
import SqlForge.Condition.Tree
import SqlForge.Template

/-! # Conditions as they are written in SQL -/

namespace SqlForge

/-- The column that the value names, if it is the text of a column reference. -/
def Value.columnReference? : Value → Option Text
  | .text s => if isColumnReference s then some s else none
  | _ => none

namespace Dialect

/-- The comparison with one value. A value that names a column is written as that column, and an
operator that only asks for presence takes no value. -/
def comparison (d : Dialect) (column : Text) (op : Operator) (v : Value) : Template :=
  let left := d.quote column ++ ' ' :: op.keyword
  match v.columnReference? with
  | some other => .ofText (left ++ ' ' :: d.quote other)
  | none =>
    if op.testsNull then .ofText left
    else [.text (left ++ [' ']), .slot ⟨"where_".toList ++ column, v⟩]

/-- The comparison with each of some values. Without values its truth does not depend on the
column. -/
def membership (d : Dialect) (column : Text) (op : Operator) (vs : List Value) : Template :=
  if vs.isEmpty then .ofText (if op.isNegative then "0 = 0" else "0 = 1").toList
  else
    let slots := vs.zipIdx.map fun (v, i) =>
      [Piece.slot (Binding.mk ("where_".toList ++ Text.natural i ++ column) v)]
    .text (d.quote column ++ ' ' :: op.forList.keyword ++ " (".toList) ::
      Template.join ", ".toList slots ++ [.text [')']]

/-- The template of a condition. A key whose column is a connective is refused, because a group
was meant. -/
def condition (d : Dialect) (c : Condition) : Except CommandError Template :=
  let (column, op) := Operator.ofKey c.key
  if column = Connective.and.keyword ∨ column = Connective.or.keyword then
    .error (.connectiveAsColumn column)
  else
    match c.comparand with
    | .one v => .ok (d.comparison column op v)
    | .many vs => .ok (d.membership column op vs)

/-- The members of the outermost group, with their values as slots. -/
def conditions (d : Dialect) (cs : Conditions Condition) : Except CommandError (List Template) :=
  (cs.traverse d.condition).map (Conditions.members Template.ofText)

end Dialect

end SqlForge
