import SqlForge.Statement

/-!
# Sessions

Dialects that are in use together. Each of them takes the numbers of its statements from a counter
and only holds a reference to it, so a copy of a member goes on with the same counter.
-/

namespace SqlForge

structure Session.Member where
  dialect : Dialect
  /-- The place of its counter. -/
  counter : Nat

structure Session where
  members : List Session.Member
  /-- How many statements have been begun with each counter. -/
  counters : List Nat

namespace Session

def empty : Session := ⟨[], []⟩

/-- Adds a member with a counter of its own. -/
def add (s : Session) (d : Dialect) : Session where
  members := s.members ++ [⟨d, s.counters.length⟩]
  counters := s.counters ++ [0]

def start (d : Dialect) : Session := empty.add d

/-- Adds a copy of the given member and tells how many there are now. -/
def copy? (s : Session) (member : Nat) : Option (Nat × Session) :=
  s.members[member]?.map fun m => (s.members.length + 1, { s with members := s.members ++ [m] })

/-- How many statements have been begun with the counter of the given member. -/
def begun? (s : Session) (member : Nat) : Option Nat :=
  s.members[member]?.bind fun m => s.counters[m.counter]?

def compile? (s : Session) (member : Nat) (c : Command) :
    Option (Except CommandError Statement × Session) :=
  s.members[member]?.bind fun m =>
    (s.begun? member).map fun begun =>
      let (answer, begun) := m.dialect.compile begun c
      (answer, { s with counters := s.counters.set m.counter begun })

end Session

end SqlForge
