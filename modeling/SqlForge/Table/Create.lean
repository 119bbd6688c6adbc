import SqlForge.Table.Definition

/-!
# Creating a table

The body of the statement has a line for each column and then a line for each key: the primary
one, the unique ones, the others. All of it is fixed text; no value is bound.
-/

namespace SqlForge

structure TableOptions where
  engine : Text
  charset : Text
  collation : Text
  comment : Text
  /-- The first number for a column that counts itself up. -/
  autoIncrement : UInt64
  deriving DecidableEq, Repr

instance : Inhabited TableOptions :=
  ⟨⟨"InnoDB".toList, "utf8".toList, "utf8_general_ci".toList, [], 1⟩⟩

namespace Table

/-- The first fault among the columns, where `primary?` is the primary column before them. -/
def faultAfter? (primary? : Option Text) : List Column → Option TableError
  | [] => none
  | c :: rest =>
    match c.fault?, c.key, primary? with
    | some e, _, _ => some e
    | none, some .primary, some first => some (.secondPrimary first c.name)
    | none, some .primary, none => faultAfter? (some c.name) rest
    | none, _, _ => faultAfter? primary? rest

/-- What keeps a table of these columns from being created. -/
def fault? (columns : List Column) : Option TableError :=
  if columns.isEmpty then some .noColumns else faultAfter? none columns

def keyed (d : Dialect) (columns : List Column) (role : KeyKind) : List Text :=
  (columns.filter (·.key = some role)).map fun c => d.quote c.name

def keyLines (d : Dialect) (columns : List Column) : List Text :=
  (keyed d columns .primary).map (fun k => "PRIMARY KEY (".toList ++ k ++ [')']) ++
  (keyed d columns .unique).map (fun k => "UNIQUE KEY ".toList ++ k ++ " (".toList ++ k ++ [')']) ++
  (keyed d columns .index).map (fun k => "KEY ".toList ++ k ++ " (".toList ++ k ++ [')'])

def body (d : Dialect) (columns : List Column) : Text :=
  Text.join ",\n".toList <| (columns.map (·.definition d) ++ keyLines d columns).map ('\t' :: ·)

def optionsText (d : Dialect) (o : TableOptions) : Text :=
  "ENGINE=".toList ++ o.engine ++ " DEFAULT CHARSET=".toList ++ o.charset ++
    " COLLATE=".toList ++ o.collation ++ " COMMENT=".toList ++ d.literal o.comment ++
    " AUTO_INCREMENT=".toList ++ Text.natural o.autoIncrement.toNat ++ [';']

/-- The statement that creates the table with the quoted name `table`. -/
def create (d : Dialect) (table : Text) (columns : List Column) (o : TableOptions) : Text :=
  "CREATE TABLE IF NOT EXISTS ".toList ++ table ++ " (\n".toList ++ body d columns ++
    "\n) ".toList ++ optionsText d o

end Table

end SqlForge
