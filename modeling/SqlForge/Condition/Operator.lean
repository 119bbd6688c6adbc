import SqlForge.Text.Blank

/-!
# Comparison operators

The key of a condition is a column with an operator behind it, as in `age >=`. Operators may be
spelled in any letter case, but blanks have to stand before them.
-/

namespace SqlForge

inductive Operator where
  | equal
  | notEqual
  | greater
  | atLeast
  | atMost
  | less
  | unequal
  | like
  | notLike
  | isNull
  | isNotNull
  | within
  | notWithin
  deriving DecidableEq, Repr

namespace Operator

def keyword : Operator → Text
  | equal => "=".toList
  | notEqual => "!=".toList
  | greater => ">".toList
  | atLeast => ">=".toList
  | atMost => "<=".toList
  | less => "<".toList
  | unequal => "<>".toList
  | like => "LIKE".toList
  | notLike => "NOT LIKE".toList
  | isNull => "IS NULL".toList
  | isNotNull => "IS NOT NULL".toList
  | within => "IN".toList
  | notWithin => "NOT IN".toList

/-- The operators, those with longer keywords first. -/
def longestFirst : List Operator :=
  [isNotNull, notLike, isNull, notWithin, like, notEqual, atLeast, atMost, unequal, within, equal,
   greater, less]

/-- The column in front of `op`, if `key` ends in a blank and `op`. -/
def column? (op : Operator) (key : Text) : Option Text :=
  let size := key.length - op.keyword.length
  let column := Text.trimEnd Text.isBlank (key.take size)
  if Text.sameLetters (key.drop size) op.keyword ∧ column ≠ key.take size ∧ column ≠ [] then
    some column
  else none

/-- The column and the operator of a key. A key without operator asks for equality. -/
def ofKey (key : Text) : Text × Operator :=
  let key := Text.strip key
  (longestFirst.findSome? fun op => (op.column? key).map (·, op)).getD (key, equal)

/-- Does the operator only ask whether a value is there? -/
def testsNull : Operator → Bool
  | isNull | isNotNull => true
  | _ => false

/-- Does the operator hold of every value when it has nothing to compare with? -/
def isNegative : Operator → Bool
  | notEqual | unequal | notLike | notWithin => true
  | _ => false

/-- The operator for a list of values: equality becomes membership. -/
def forList : Operator → Operator
  | equal => within
  | op => op

end Operator

end SqlForge
