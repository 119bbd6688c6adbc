import SqlForge.Dialect
import SqlForge.Table.Column

/-!
# Definitions of columns

The line that a column takes up when its table is created. A definition consists of words with
single spaces between them; the type may come as several words.
-/

namespace SqlForge

/-- The integer type for a number of digits. -/
def integerType (digits : Nat) : Text :=
  if digits ≤ 3 then "TINYINT(3)".toList
  else if digits ≤ 5 then "SMALLINT(5)".toList
  else if digits ≤ 7 then "MEDIUMINT(7)".toList
  else if digits ≤ 10 then "INT(10)".toList
  else "BIGINT(25)".toList

def wordIf (b : Bool) (word : Text) : List Text := if b then [word] else []

namespace Column

/-- The length in use: none and zero stand for that of the type. -/
def size (c : Column) : Nat := ((c.length.filter (0 < ·)).getD c.type.usualLength).toNat

/-- The words that give the type. Only integers are signed or counted up. -/
def typeWords (d : Dialect) (c : Column) : List Text :=
  match c.type with
  | .integer =>
    integerType c.size :: wordIf c.unsigned "UNSIGNED".toList ++
      wordIf (c.unsigned && c.zerofill) "ZEROFILL".toList ++
      wordIf c.autoIncrement "AUTO_INCREMENT".toList
  | .text =>
    if c.size ≤ 255 then ["VARCHAR(".toList ++ Text.natural c.size ++ [')']] else ["TEXT".toList]
  | .enum options => ["ENUM(".toList ++ Text.join ", ".toList (options.map d.literal) ++ [')']]
  | .dateTime => ["DATETIME".toList]
  | .timestamp => ["TIMESTAMP".toList]
  | .date => ["DATE".toList]
  | .time => ["TIME".toList]
  | .float => ["FLOAT".toList]
  | .blob => ["BLOB".toList]
  | .year => ["YEAR(4)".toList]

/-- A column that counts itself up always has a value. -/
def nullWord (c : Column) : Text :=
  if c.nullable && !c.autoIncrement then "NULL".toList else "NOT NULL".toList

/-- The default that is written. An empty one is none. That of an enumeration is one of its
options, the first unless another is declared, and a column that counts itself up has none. -/
def writtenDefault? (c : Column) : Option Text :=
  let declared := c.default.filter (!·.isEmpty)
  match c.type with
  | .enum [] => none
  | .enum (first :: rest) => some ((declared.filter ((first :: rest).contains ·)).getD first)
  | _ => if c.autoIncrement then none else declared

/-- `keyword` and a literal, if there is one. -/
def literalWord (d : Dialect) (keyword : Text) : Option Text → List Text
  | some s => [keyword ++ ' ' :: d.literal s]
  | none => []

def definition (d : Dialect) (c : Column) : Text :=
  Text.join [' '] <|
    d.quote c.name :: c.typeWords d ++ [c.nullWord] ++
      literalWord d "DEFAULT".toList c.writtenDefault? ++
      literalWord d "COMMENT".toList (c.comment.filter (!·.isEmpty))

def fault? (c : Column) : Option TableError :=
  match c.type with
  | .enum [] => some (.emptyEnum c.name)
  | _ => none

def define (d : Dialect) (c : Column) : Except TableError Text :=
  match c.fault? with
  | some e => .error e
  | none => .ok (c.definition d)

end Column

end SqlForge
