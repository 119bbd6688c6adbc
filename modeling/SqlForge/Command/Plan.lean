import SqlForge.Command.Basic
import SqlForge.Command.Sentence
import SqlForge.Condition.Written

/-!
# Plans

The plan of a command is the template of its statement, or the error that it ends in. Each
statement that is begun uses up a number, so a plan also says whether a command that fails has
begun one: names and columns are looked at before, conditions after.
-/

namespace SqlForge

inductive Plan where
  /-- The command fails before a statement is begun. -/
  | refused (e : CommandError)
  /-- The command fails with a statement begun. -/
  | abandoned (e : CommandError)
  | ready (t : Template)
  deriving DecidableEq, Repr

namespace Dialect

def withTable (d : Dialect) (table : Text) (next : Text → Plan) : Plan :=
  match d.flavor.table? table with
  | some name => next name
  | none => .refused .noTable

/-- Goes on with the members of the conditions, now that a statement is begun. -/
def withConditions (d : Dialect) (cs : Conditions Condition) (next : List Template → Plan) : Plan :=
  match d.conditions cs with
  | .ok members => next members
  | .error e => .abandoned e

/-- Goes on only with conditions that hold a leaf. -/
def withRestriction (d : Dialect) (write : Write) (cs : Conditions Condition)
    (next : List Template → Template) : Plan :=
  d.withConditions cs fun members =>
    if members.isEmpty then .abandoned (.noConditions write) else .ready (next members)

def plan (d : Dialect) : Command → Plan
  | .select q =>
    match d.flavor.source? q.source with
    | none => .refused .noTable
    | some source => d.withConditions q.conditions fun members =>
        .ready (Sentence.select d q source members)
  | .insert table values =>
    d.withTable table fun table =>
      if values.isEmpty then .refused (.noValues .insert)
      else .ready (Sentence.insert d table values)
  | .update table values cs limit =>
    d.withTable table fun table =>
      if values.isEmpty then .refused (.noValues .update)
      else d.withRestriction .update cs fun members => Sentence.update d table values members limit
  | .delete table cs limit =>
    d.withTable table fun table =>
      d.withRestriction .delete cs fun members => Sentence.delete table members limit
  | .create table columns options =>
    d.withTable table fun table =>
      match Table.fault? columns with
      | some e => .refused (.table e)
      | none => .ready (.ofText (Table.create d table columns options))
  | .task task table => d.withTable table fun table => .ready (.ofText (task.words ++ table))
  | .showTables => .ready (.ofText "SHOW TABLES".toList)

end Dialect

end SqlForge
