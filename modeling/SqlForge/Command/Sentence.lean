import SqlForge.Assignment
import SqlForge.Query.Clauses

/-!
# Sentences

The statements that read and change rows, as templates. A sentence is a row of clauses with a
single space between neighbours; the members of a condition are given as templates.
-/

namespace SqlForge

/-- A number of rows, under the key that tells what it is for. -/
def rowCount (key : Text) (n : UInt64) : Piece Binding := .slot ⟨key, .unsigned n⟩

namespace Clause

/-- A keyword and the text behind it, if there is one. -/
def text (keyword : Text) : Option Text → List Template
  | some s => [.ofText keyword, .ofText s]
  | none => []

def restriction (members : List Template) : List Template :=
  if members.isEmpty then []
  else [.ofText "WHERE".toList, Template.join Connective.and.spaced members]

/-- The number of rows to pass over, and the number to return or change at most. -/
def window : Option (Option UInt64 × UInt64) → List Template
  | none => []
  | some (none, limit) => [[.text "LIMIT ".toList, rowCount "limit".toList limit]]
  | some (some offset, limit) =>
    [[.text "LIMIT ".toList, rowCount "offset".toList offset, .text [','],
      rowCount "limit".toList limit]]

end Clause

namespace Sentence

def ofClauses (clauses : List Template) : Template := Template.join [' '] clauses

def select (d : Dialect) (q : Query) (source : From) (members : List Template) : Template :=
  ofClauses <|
    Clause.text "SELECT".toList (some (q.selection d source.names)) ++
    Clause.text "FROM".toList (some source.clause) ++
    Clause.restriction members ++
    Clause.text "ORDER BY".toList (q.ordering? d) ++
    Clause.text "GROUP BY".toList (q.grouping? d) ++
    Clause.window q.window

/-- The row to insert is given by its columns and, in the same order, their values. -/
def insert (d : Dialect) (table : Text) (values : List Assignment) : Template :=
  .ofText ("INSERT INTO ".toList ++ table ++ " (".toList ++
    Text.join ", ".toList (values.map fun a => d.quote a.column) ++ ") VALUES (".toList) ++
  Template.join ", ".toList (values.map Assignment.placed) ++ .ofText [')']

def update (d : Dialect) (table : Text) (values : List Assignment) (members : List Template)
    (limit : Option UInt64) : Template :=
  ofClauses <|
    Clause.text "UPDATE".toList (some table) ++
    [.ofText "SET".toList, Template.join ", ".toList (values.map (·.set d))] ++
    Clause.restriction members ++
    Clause.window (limit.map (none, ·))

def delete (table : Text) (members : List Template) (limit : Option UInt64) : Template :=
  ofClauses <|
    Clause.text "DELETE FROM".toList (some table) ++
    Clause.restriction members ++
    Clause.window (limit.map (none, ·))

end Sentence

end SqlForge
