import SqlForge.Statement

/-!
# Drafts

A draft is a statement that is written piece by piece by its user: each step writes some
fragments, keeps their values in the bindings of the draft, and remembers the fragments. The
text of the whole is put together outside and comes back when the draft is finished.
-/

namespace SqlForge

structure Draft where
  number : Nat
  bindings : Bindings
  /-- The columns that have been written, with their values for an update. -/
  fields : List Text
  /-- The values of rows to insert. -/
  values : List Text
  /-- The members of the conditions that were written last. -/
  conditions : List Text
  deriving DecidableEq, Repr

namespace Draft

def start (number : Nat) : Draft := ⟨number, .empty, [], [], []⟩

def bind (w : Draft) (key : Text) (v : Value) : Text × Draft :=
  let (key, bindings) := w.bindings.bind key v
  (key, { w with bindings })

def select (d : Dialect) (w : Draft) (fs : List Field) : List Text × Draft :=
  let written := d.fields fs
  (written, { w with fields := w.fields ++ written })

def insert (d : Dialect) (w : Draft) (values : List Assignment) : (List Text × List Text) × Draft :=
  let columns := values.map fun a => d.quote a.column
  let (placed, bindings) := Template.writeAll d (values.map Assignment.placed) w.bindings
  ((columns, placed),
    { w with bindings, fields := w.fields ++ columns, values := w.values ++ placed })

def update (d : Dialect) (w : Draft) (values : List Assignment) : List Text × Draft :=
  let (written, bindings) := Template.writeAll d (values.map (·.set d)) w.bindings
  (written, { w with bindings, fields := w.fields ++ written })

/-- Writes one condition. A condition that is refused adds no value. -/
def condition (d : Dialect) (c : Condition) : ExceptT CommandError (StateM Bindings) Text :=
  fun bs =>
    match d.condition c with
    | .ok t =>
      let (s, bs) := t.write d bs
      (.ok s, bs)
    | .error e => (.error e, bs)

/-- Writes conditions as one expression. If one of them is refused, the values of those before it
stay bound, and the conditions that were written last are still remembered. -/
def restrict (d : Dialect) (w : Draft) (cs : Conditions Condition) :
    Except CommandError Text × Draft :=
  match (cs.traverse (condition d)).run w.bindings with
  | (.ok written, bindings) =>
    let members := written.members id
    (.ok (Text.join Connective.and.spaced members), { w with bindings, conditions := members })
  | (.error e, bindings) => (.error e, { w with bindings })

/-- Fills in the values of the draft. -/
def finish (d : Dialect) (w : Draft) (sql : Text) : Statement := d.finish w.number sql w.bindings

end Draft

end SqlForge
