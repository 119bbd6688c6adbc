import SqlForge.Database.Basic

/-! # A runner that keeps a log -/

namespace SqlForge

structure Recorder where
  log : List Text
  /-- Texts that begin like this are refused. -/
  barred : Option Text
  deriving DecidableEq, Repr

structure Refusal where
  start : Text
  deriving DecidableEq, Repr

def Refusal.message (e : Refusal) : Text := "refused: ".toList ++ e.start

namespace Recorder

def empty : Recorder := ⟨[], none⟩

/-- Adds a text to the log and tells how long the log is now. -/
def run : Runner Recorder Refusal Nat := fun sql r =>
  match r.barred.filter (·.isPrefixOf sql) with
  | some start => (.error ⟨start⟩, r)
  | none => (.ok (r.log.length + 1), { r with log := r.log ++ [sql] })

end Recorder

end SqlForge
