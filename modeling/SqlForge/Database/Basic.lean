import SqlForge.Statement

/-!
# Databases

A database compiles commands and hands their statements to a runner at once. The runner sees
finished text only.
-/

namespace SqlForge

/-- Runs a text as a statement: it answers or fails, and may change its own state. -/
abbrev Runner (σ ε α : Type) := Text → σ → Except ε α × σ

structure Database (σ : Type) where
  dialect : Dialect
  /-- How many statements have been begun. -/
  begun : Nat
  /-- How many texts have been run with success. -/
  executed : Nat
  /-- The state of the runner. -/
  state : σ

inductive RunError (ε : Type) where
  | command (e : CommandError)
  | runner (e : ε)
  deriving DecidableEq, Repr

namespace Database

variable {σ ε α : Type}

def start (d : Dialect) (state : σ) : Database σ := ⟨d, 0, 0, state⟩

def runText (runner : Runner σ ε α) (db : Database σ) (sql : Text) :
    Except (RunError ε) α × Database σ :=
  match runner sql db.state with
  | (.ok answer, state) => (.ok answer, { db with state, executed := db.executed + 1 })
  | (.error e, state) => (.error (.runner e), { db with state })

def compile (db : Database σ) (c : Command) : Except CommandError Statement × Database σ :=
  let (answer, begun) := db.dialect.compile db.begun c
  (answer, { db with begun })

def run (runner : Runner σ ε α) (db : Database σ) (c : Command) :
    Except (RunError ε) α × Database σ :=
  match db.compile c with
  | (.ok s, db) => db.runText runner s.sql
  | (.error e, db) => (.error (.command e), db)

/-! ## Methods -/

section
variable (runner : Runner σ ε α) (db : Database σ)

def select (query : Query) : Except (RunError ε) α × Database σ := db.run runner (.select query)

def insert (table : Text) (values : List Assignment) : Except (RunError ε) α × Database σ :=
  db.run runner (.insert table values)

def update (table : Text) (values : List Assignment) (conditions : Conditions Condition)
    (limit : Option UInt64) : Except (RunError ε) α × Database σ :=
  db.run runner (.update table values conditions limit)

def delete (table : Text) (conditions : Conditions Condition) (limit : Option UInt64) :
    Except (RunError ε) α × Database σ :=
  db.run runner (.delete table conditions limit)

def create (table : Text) (columns : List Column) (options : TableOptions) :
    Except (RunError ε) α × Database σ :=
  db.run runner (.create table columns options)

def drop (table : Text) : Except (RunError ε) α × Database σ := db.run runner (.task .drop table)

def truncate (table : Text) : Except (RunError ε) α × Database σ :=
  db.run runner (.task .truncate table)

def describe (table : Text) : Except (RunError ε) α × Database σ :=
  db.run runner (.task .describe table)

def optimize (table : Text) : Except (RunError ε) α × Database σ :=
  db.run runner (.task .optimize table)

/-- Lists the columns of a table. -/
def columns (table : Text) : Except (RunError ε) α × Database σ :=
  db.run runner (.task .showColumns table)

/-- Lists the tables. -/
def tables : Except (RunError ε) α × Database σ := db.run runner .showTables

/-- Runs a text as it is. -/
def execute (sql : Text) : Except (RunError ε) α × Database σ := db.runText runner sql

/-- Calls the method for a command. -/
def call : Command → Except (RunError ε) α × Database σ
  | .select query => db.select runner query
  | .insert table values => db.insert runner table values
  | .update table values conditions limit => db.update runner table values conditions limit
  | .delete table conditions limit => db.delete runner table conditions limit
  | .create table columns options => db.create runner table columns options
  | .task .drop table => db.drop runner table
  | .task .truncate table => db.truncate runner table
  | .task .describe table => db.describe runner table
  | .task .optimize table => db.optimize runner table
  | .task .showColumns table => db.columns runner table
  | .showTables => db.tables runner

end

end Database

end SqlForge
