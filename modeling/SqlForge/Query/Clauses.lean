import SqlForge.Query.Basic
import SqlForge.Text.UpperCase

/-! # What stands behind the keywords of a query -/

namespace SqlForge

/-! ## Tables -/

/-- The clause behind `FROM`, and the names by which its tables go in the rest of the query. -/
structure From where
  clause : Text
  names : List Text
  deriving DecidableEq, Repr

namespace Flavor

/-- The alias of a table: the given one, or the table itself if that is blank, with its first
letter in upper case. -/
def aliasFor (f : Flavor) (given : Option Text) (table : Text) : Text :=
  let name := (given.filter fun a => Text.strip a ≠ []).getD table
  f.quote (Text.capitalize (Text.strip name))

/-- The clause of a source, or `none` if there is no table or one with a blank name. -/
def source? (f : Flavor) : Source → Option From
  | .one table => (f.table? table).map fun name => ⟨name, [name]⟩
  | .many [] => none
  | .many tables =>
    (tables.mapM fun t => f.table? t.2).map fun quoted =>
      let aliases := tables.map fun (given, table) => f.aliasFor given table
      ⟨Text.join ", ".toList (List.zipWith (fun t a => t ++ " AS ".toList ++ a) quoted aliases),
        aliases⟩

end Flavor

/-! ## Columns -/

namespace Query

/-- What stands behind `SELECT`. Without fields it is everything; of several tables each name is
given. -/
def selection (d : Dialect) (q : Query) (names : List Text) : Text :=
  match q.reach with
  | .count => "COUNT(*) AS ".toList ++ d.quote "count".toList
  | .all | .first =>
    if !q.fields.isEmpty then Text.join ", ".toList (d.fields q.fields)
    else if 1 < names.length then Text.join ", ".toList (names.map (· ++ ".*".toList))
    else ['*']

def ordering? (d : Dialect) (q : Query) : Option Text :=
  match q.order with
  | some (.by []) | none => none
  | some (.by columns) =>
    some (Text.join ", ".toList (columns.map fun (c, dir) => d.quote c ++ ' ' :: dir.keyword))
  | some .random => some d.flavor.random

def grouping? (d : Dialect) (q : Query) : Option Text :=
  if q.groups.isEmpty then none else some (Text.join ", ".toList (q.groups.map d.quote))

end Query

end SqlForge
