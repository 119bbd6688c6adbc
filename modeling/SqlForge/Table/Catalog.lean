import SqlForge.Table.Column

/-!
# Columns as the server describes them

A row of the catalog gives the type of a column as text, such as `int(10) unsigned`. Types that
the library does not tell apart are taken for the nearest one that it knows.
-/

namespace SqlForge

structure CatalogRow where
  name : Text
  type : Text
  null : Text
  key : Text
  default : Option Text
  extra : Text
  comment : Text
  deriving DecidableEq, Repr

/-- The text of a type in three parts, as in `base(parameters) attributes`. -/
structure TypeText where
  base : Text
  parameters : Option Text
  attributes : Text
  deriving DecidableEq, Repr

namespace TypeText

/-- The parts of a type; a bracket that is not closed is an error. Without brackets the base ends
at the first space. -/
def read (s : Text) : Except TableError TypeText :=
  let s := Text.strip s
  match Text.cut? '(' s with
  | some (base, rest) =>
    match Text.cut? ')' rest with
    | some (parameters, attributes) => .ok ⟨base, some parameters, Text.lower attributes⟩
    | none => .error (.malformedType s)
  | none =>
    match Text.cut? ' ' s with
    | some (base, attributes) => .ok ⟨base, none, Text.lower attributes⟩
    | none => .ok ⟨s, none, []⟩

/-- The digits of `s`, with a plus sign before them or not, as a length. -/
def readLength? (s : Text) : Option UInt32 :=
  let digits := match s with
    | '+' :: rest => rest
    | _ => s
  if digits ≠ [] ∧ digits.all Char.isDigit then
    let n := Nat.ofDigitChars 10 digits 0
    if n < UInt32.size then some (UInt32.ofNat n) else none
  else none

def length? (t : TypeText) : Option UInt32 :=
  t.parameters.bind fun s => readLength? (Text.strip s)

/-- The options between the brackets of an enumeration. Quotes around an option are dropped, and
so are options of which nothing is left. -/
def options (t : TypeText) : List Text :=
  (((t.parameters.getD []).splitOn ',').map fun s =>
    Text.trim (· == '\'') (Text.strip s)).filter (!·.isEmpty)

def column (t : TypeText) : Except TableError (ColumnType × Option UInt32) :=
  let base := Text.lower t.base
  if base ∈ ["tinyint", "smallint", "mediumint", "bigint"].map String.toList then
    .ok (.integer, t.length?)
  else if base ∈ ["text", "tinytext", "mediumtext", "longtext"].map String.toList then
    .ok (.text, some (t.length?.getD 65535))
  else if base ∈ ["decimal", "numeric", "double", "real"].map String.toList then
    .ok (.float, none)
  else if base ∈ ["tinyblob", "mediumblob", "longblob", "binary", "varbinary"].map String.toList then
    .ok (.blob, none)
  else if base = "enum".toList then .ok (.enum t.options, none)
  else (ColumnType.named base).map (·, t.length?)

end TypeText

/-- The role that the catalog gives by three letters. -/
def KeyKind.ofCatalog? (s : Text) : Option KeyKind :=
  if s = "PRI".toList then some primary
  else if s = "UNI".toList then some unique
  else if s = "MUL".toList then some index
  else none

def CatalogRow.column (row : CatalogRow) : Except TableError Column := do
  let t ← TypeText.read row.type
  let (type, length) ← t.column
  pure {
    name := row.name
    type
    length
    nullable := Text.sameLetters row.null "yes".toList
    unsigned := Text.occurs "unsigned".toList t.attributes
    zerofill := Text.occurs "zerofill".toList t.attributes
    autoIncrement := Text.occurs "auto_increment".toList row.extra
    default := row.default
    comment := if row.comment.isEmpty then none else some row.comment
    key := KeyKind.ofCatalog? row.key }

end SqlForge
