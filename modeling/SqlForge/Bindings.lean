import SqlForge.Binding

/-!
# The bindings of a statement

The values of one statement, in the order in which they came, and an index that tells the place of
each key among them. No two values have the same key: a key that the index knows gets a number at
its end, so whoever binds a value has to use the key that comes back.
-/

namespace SqlForge

/-- Values and an index, as they are stored. -/
structure Bindings.Raw where
  entries : List Binding
  /-- Places under their keys. Notes are made in front, and one that is made later hides the ones
  with its key that are there. -/
  index : List (Text × Nat)
  deriving DecidableEq, Repr

namespace Bindings.Raw

def empty : Raw := ⟨[], []⟩

def size (bs : Raw) : Nat := bs.entries.length

def place? (bs : Raw) (key : Text) : Option Nat := bs.index.lookup key

def contains (bs : Raw) (key : Text) : Bool := (bs.place? key).isSome

def get? (bs : Raw) (key : Text) : Option Value :=
  (bs.place? key).bind fun i => bs.entries[i]?.map Binding.value

/-! ## Adding a value -/

/-- The first number from `bs.size` on that makes a free key of `base`. Of the `bs.size` numbers
that are tried one is free, because `base` itself takes up one of the keys. -/
def suffix (bs : Raw) (base : Text) : Nat :=
  ((List.range' bs.size bs.size).find? fun n => !bs.contains (base ++ Text.natural n)).getD
    (2 * bs.size)

/-- The key under which a value is stored that asks for `key`. Colons around it are dropped. -/
def keyFor (bs : Raw) (key : Text) : Text :=
  let base := Text.trim (· == ':') key
  if bs.contains base then base ++ Text.natural (bs.suffix base) else base

/-- Stores `v` behind the other values and notes its place. -/
def add (bs : Raw) (key : Text) (v : Value) : Raw where
  entries := bs.entries ++ [⟨bs.keyFor key, v⟩]
  index := (bs.keyFor key, bs.size) :: bs.index

/-- Nothing but values that have been added one after the other. -/
inductive Reachable : Raw → Prop
  | empty : Reachable .empty
  | add {bs : Raw} (h : Reachable bs) (key : Text) (v : Value) : Reachable (bs.add key v)

end Bindings.Raw

/-- Values that have been added one after the other, with their index. -/
structure Bindings extends Bindings.Raw where
  reachable : toRaw.Reachable
  deriving DecidableEq, Repr

namespace Bindings

def empty : Bindings := ⟨.empty, .empty⟩

/-- Adds `v` behind the other values and tells its key. -/
def bind (bs : Bindings) (key : Text) (v : Value) : Text × Bindings :=
  (bs.keyFor key, ⟨bs.add key v, bs.reachable.add key v⟩)

/-! ## Filling in

The placeholders are replaced in the whole text, one value after the other. What a value brings
into the text is text like any other for the values after it. -/

def fillOne (escape? : Option (Text → Text)) (s : Text) (b : Binding) : Text :=
  if b.isOrdinal then s else Text.replace b.placeholder (b.value.filling escape?) s

def fillAll (escape? : Option (Text → Text)) (es : List Binding) (s : Text) : Text :=
  es.foldl (fillOne escape?) s

def fill (bs : Bindings) (escape? : Option (Text → Text)) (s : Text) : Text :=
  fillAll escape? bs.entries s

end Bindings

end SqlForge
