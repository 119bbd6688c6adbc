import SqlForge.Text

/-!
# Texts that are SQL already

A text that begins like the call of a function, with a name in capitals, stands for that call;
a text made of two words with a point between them names the column of a table. Such texts are
written as SQL and not as string literals.
-/

namespace SqlForge

/-- The call of a function: its name, and all that stands between its brackets. -/
structure Call where
  name : Text
  arguments : Text
  deriving DecidableEq, Repr

namespace Call

def isNameChar (c : Char) : Bool := c.isUpper || c.isDigit || c == '_'

/-- The call at the head of `s`. Its brackets end at the last closing bracket on the line on
which they open; what follows that bracket is passed over. -/
def read? (s : Text) : Option Call :=
  match s.takeWhile isNameChar, s.dropWhile isNameChar with
  | c :: name, '(' :: rest => (Text.beforeLast? ')' (rest.takeWhile (· != '\n'))).map (⟨c :: name, ·⟩)
  | _, _ => none

end Call

def isCall (s : Text) : Bool := (Call.read? s).isSome

def isWordChar (c : Char) : Bool := c.isAlphanum || c == '_'

def isWord (s : Text) : Bool := !s.isEmpty && s.all isWordChar

/-- Is `s` the name of a table, a point, and the name of a column? -/
def isColumnReference (s : Text) : Bool :=
  match Text.cut? '.' s with
  | some (table, column) => isWord table && isWord column
  | none => false

end SqlForge
