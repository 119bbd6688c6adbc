import SqlForge.Text

/-! # What is wrong with the description of a table -/

namespace SqlForge

inductive TableError where
  | noColumns
  | emptyEnum (column : Text)
  | secondPrimary (first second : Text)
  | unknownType (type : Text)
  | malformedType (type : Text)
  deriving DecidableEq, Repr

def TableError.message : TableError → Text
  | noColumns => "schema is required to create tables".toList
  | emptyEnum column => "enum column `".toList ++ column ++ "` has no options".toList
  | secondPrimary first second =>
    "column `".toList ++ second ++ "` is marked primary but `".toList ++ first ++
      "` already is".toList
  | unknownType type => "unknown column type `".toList ++ type ++ ['`']
  | malformedType type => "cannot parse column type `".toList ++ type ++ ['`']

end SqlForge
