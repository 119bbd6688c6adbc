import SqlForge.Table.Error

/-! # Why a command has no statement -/

namespace SqlForge

inductive Write where
  | insert
  | update
  | delete
  deriving DecidableEq, Repr

def Write.keyword : Write → Text
  | insert => "INSERT".toList
  | update => "UPDATE".toList
  | delete => "DELETE".toList

inductive CommandError where
  | table (e : TableError)
  /-- `AND` or `OR` stands where a column is expected. -/
  | connectiveAsColumn (word : Text)
  | noValues (write : Write)
  | noConditions (write : Write)
  | noTable
  deriving DecidableEq, Repr

def CommandError.message : CommandError → Text
  | table e => e.message
  | connectiveAsColumn word =>
    "condition key `".toList ++ word ++ "` is a join operator, not a column".toList
  | noValues write => write.keyword ++ " requires at least one column".toList
  | noConditions write => write.keyword ++ " requires at least one condition".toList
  | noTable => "table name is required".toList

end SqlForge
