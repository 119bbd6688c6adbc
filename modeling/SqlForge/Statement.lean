import SqlForge.Command.Plan

/-!
# Statements

A finished statement has its text with all values filled in, the bindings of these values, and
its number. The numbers count the statements that have been begun.
-/

namespace SqlForge

structure Statement where
  number : Nat
  sql : Text
  bindings : Bindings
  deriving DecidableEq, Repr

def Statement.label (number : Nat) : Text := "stmt-".toList ++ Text.natural number

namespace Dialect

/-- Fills in the values of a text that has been written. -/
def finish (d : Dialect) (number : Nat) (s : Text) (bs : Bindings) : Statement :=
  ⟨number, bs.fill d.cleaner? s, bs⟩

/-- Writes a template with bindings of its own and fills them in. -/
def complete (d : Dialect) (number : Nat) (t : Template) : Statement :=
  let (s, bs) := t.write d .empty
  d.finish number s bs

/-- The statement of a command, and how many statements have been begun after it if there were
`begun` before. -/
def compile (d : Dialect) (begun : Nat) (c : Command) : Except CommandError Statement × Nat :=
  match d.plan c with
  | .refused e => (.error e, begun)
  | .abandoned e => (.error e, begun + 1)
  | .ready t => (.ok (d.complete (begun + 1) t), begun + 1)

end Dialect

end SqlForge
