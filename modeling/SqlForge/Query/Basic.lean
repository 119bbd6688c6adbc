import SqlForge.Condition.Tree
import SqlForge.Query.Field

/-!
# Queries

What a selection asks for: which rows, from which tables, in which order.
-/

namespace SqlForge

inductive Reach where
  | all
  | first
  | count
  deriving DecidableEq, Repr

/-- The reach with the given name; a name that means nothing asks for all rows. -/
def Reach.named (name : Text) : Reach :=
  if name = "first".toList then first else if name = "count".toList then count else all

/-- The tables of a query. Where there are several, each has an alias or goes by its own name. -/
inductive Source where
  | one (table : Text)
  | many (tables : List (Option Text × Text))
  deriving DecidableEq, Repr

inductive Direction where
  | ascending
  | descending
  deriving DecidableEq, Repr

def Direction.keyword : Direction → Text
  | ascending => "ASC".toList
  | descending => "DESC".toList

inductive RowOrder where
  | by (columns : List (Text × Direction))
  | random
  deriving DecidableEq, Repr

/-- Adds a column behind the others. No order, and the random one, give way to it. -/
def RowOrder.thenBy (column : Text) (direction : Direction) : Option RowOrder → RowOrder
  | some (.by columns) => .by (columns ++ [(column, direction)])
  | _ => .by [(column, direction)]

structure Query where
  reach : Reach
  source : Source
  fields : List Field
  conditions : Conditions Condition
  order : Option RowOrder
  groups : List Text
  limit : Option UInt64
  /-- The number of rows to pass over. It counts only beside a limit. -/
  offset : Option UInt64
  deriving DecidableEq, Repr

/-- The number of rows to pass over, and the number to return at most. -/
def Query.window (q : Query) : Option (Option UInt64 × UInt64) :=
  match q.reach with
  | .first => some (none, 1)
  | .all | .count => q.limit.map (q.offset, ·)

end SqlForge
