import SqlForge.Condition.Operator
import SqlForge.Value

/-!
# Conditions

A condition compares a column with one value or with a list of values. Conditions are nested in
groups; `Conditions` is the ordered list of the members of one group, with the groups inside it,
over any type of leaf, so that conditions still to be written and texts that have been written
have the same shape.
-/

namespace SqlForge

inductive Comparand where
  | one (v : Value)
  | many (vs : List Value)
  deriving DecidableEq, Repr

structure Condition where
  /-- The column, with an operator behind it or not. -/
  key : Text
  comparand : Comparand
  deriving DecidableEq, Repr

inductive Connective where
  | and
  | or
  deriving DecidableEq, Repr

namespace Connective

def keyword : Connective → Text
  | and => "AND".toList
  | or => "OR".toList

def spaced (j : Connective) : Text := ' ' :: j.keyword ++ [' ']

end Connective

/-- The members of a group, in order. -/
inductive Conditions (α : Type) where
  | nil
  | leaf (a : α) (rest : Conditions α)
  | group (word : Connective) (inner rest : Conditions α)
  deriving DecidableEq, Repr

namespace Conditions

/-- Visits the leaves from left to right and puts what comes of each in its place. -/
def traverse {m : Type → Type} [Monad m] {α β : Type} (f : α → m β) :
    Conditions α → m (Conditions β)
  | nil => pure nil
  | leaf a rest => do
    let b ← f a
    let rest ← traverse f rest
    pure (leaf b rest)
  | group word inner rest => do
    let inner ← traverse f inner
    let rest ← traverse f rest
    pure (group word inner rest)

/-- The members as they are written, where `lit` writes a fixed text. A group stands in brackets;
one that holds no leaf at any depth is left out. -/
def members {β : Type} (lit : Text → List β) : Conditions (List β) → List (List β)
  | nil => []
  | leaf b rest => b :: members lit rest
  | group word inner rest =>
    match members lit inner with
    | [] => members lit rest
    | b :: bs =>
      (lit ['('] ++ (lit word.spaced).intercalate (b :: bs) ++ lit [')']) :: members lit rest

end Conditions

end SqlForge
