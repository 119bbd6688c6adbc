import SqlForge.Assignment
import SqlForge.Query.Basic
import SqlForge.Table.Create

/-! # Commands: what a statement is to do -/

namespace SqlForge

inductive TableTask where
  | drop
  | truncate
  | describe
  | optimize
  | showColumns
  deriving DecidableEq, Repr

def TableTask.words : TableTask → Text
  | drop => "DROP TABLE ".toList
  | truncate => "TRUNCATE TABLE ".toList
  | describe => "DESCRIBE ".toList
  | optimize => "OPTIMIZE TABLE ".toList
  | showColumns => "SHOW FULL COLUMNS FROM ".toList

inductive Command where
  | select (query : Query)
  | insert (table : Text) (values : List Assignment)
  | update (table : Text) (values : List Assignment) (conditions : Conditions Condition)
      (limit : Option UInt64)
  | delete (table : Text) (conditions : Conditions Condition) (limit : Option UInt64)
  | create (table : Text) (columns : List Column) (options : TableOptions)
  | task (task : TableTask) (table : Text)
  | showTables
  deriving DecidableEq, Repr

end SqlForge
