import SqlForge.Text

/-!
# Flavors of SQL

The three families of servers differ in the mark around an identifier, in the characters that
a string literal must not hold bare, and in the name of the random function.
-/

namespace SqlForge

inductive Flavor where
  | mysql
  | postgres
  | sqlite
  deriving DecidableEq, Repr

instance : Inhabited Flavor := ⟨.mysql⟩

structure UnknownFlavor where
  name : Text
  deriving DecidableEq, Repr

def UnknownFlavor.message (e : UnknownFlavor) : Text :=
  "unknown sql flavor `".toList ++ e.name ++ ['`']

namespace Flavor

def title : Flavor → Text
  | mysql => "MySQL".toList
  | postgres => "PostgreSQL".toList
  | sqlite => "SQLite".toList

def names : List (Text × Flavor) :=
  [("mysql".toList, mysql), ("mariadb".toList, mysql),
   ("postgres".toList, postgres), ("postgresql".toList, postgres), ("pg".toList, postgres),
   ("sqlite".toList, sqlite), ("sqlite3".toList, sqlite)]

def named (name : Text) : Except UnknownFlavor Flavor :=
  match names.lookup (Text.lower name) with
  | some f => .ok f
  | none => .error ⟨name⟩

/-- The mark before and after an identifier. -/
def mark : Flavor → Char
  | mysql => '`'
  | postgres | sqlite => '"'

def random : Flavor → Text
  | mysql => "RAND()".toList
  | postgres | sqlite => "RANDOM()".toList

/-! ## String literals -/

/-- How one character is written between the quotes of a string literal. -/
def escapeChar : Flavor → Char → Text
  | mysql, c =>
    match c with
    | '\x00' => ['\\', '0']
    | '\n' => ['\\', 'n']
    | '\r' => ['\\', 'r']
    | '\x1a' => ['\\', 'Z']
    | '\'' => ['\\', '\'']
    | '"' => ['\\', '"']
    | '\\' => ['\\', '\\']
    | c => [c]
  | postgres, c | sqlite, c =>
    match c with
    | '\x00' => []
    | '\'' => ['\'', '\'']
    | c => [c]

/-- `s` as the body of a string literal, without the quotes around it. -/
def escape (f : Flavor) (s : Text) : Text := s.flatMap f.escapeChar

/-! ## Identifiers -/

/-- `name` between two marks, taken as it is. -/
def enclose (f : Flavor) (name : Text) : Text := f.mark :: name ++ [f.mark]

end Flavor

end SqlForge
