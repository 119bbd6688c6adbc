import SqlForge.Bindings
import SqlForge.Dialect.Place

/-!
# Templates

An outline is a text with slots in it. A template is the outline of a statement: its slots hold
the values. Written out, each value gets a key and leaves its direct text or its placeholder; the
placeholders are filled from the bindings at the end.
-/

namespace SqlForge

inductive Piece (α : Type) where
  | text (s : Text)
  | slot (a : α)
  deriving DecidableEq, Repr

abbrev Outline (α : Type) := List (Piece α)

/-- Each slot has a value and the key that the value asks for. -/
abbrev Template := Outline Binding

namespace Template

def ofText (s : Text) : Template := [.text s]

/-- The templates one after the other, with the text `sep` between neighbours. -/
def join (sep : Text) (ts : List Template) : Template := (ofText sep).intercalate ts

/-- The text of a template, and the bindings with the values of its slots added from left to
right. -/
def write (d : Dialect) : Template → Bindings → Text × Bindings
  | [], bs => ([], bs)
  | .text s :: rest, bs =>
    let (after, bs) := write d rest bs
    (s ++ after, bs)
  | .slot b :: rest, bs =>
    let (key, bs) := bs.bind b.key b.value
    let (after, bs) := write d rest bs
    (d.place b.value key ++ after, bs)

def writeAll (d : Dialect) : List Template → Bindings → List Text × Bindings
  | [], bs => ([], bs)
  | t :: ts, bs =>
    let (s, bs) := write d t bs
    let (ss, bs) := writeAll d ts bs
    (s :: ss, bs)

end Template

end SqlForge
