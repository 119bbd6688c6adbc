import SqlForge.Flavor
import SqlForge.Text.Blank

/-!
# Identifiers

A name with a point is a qualifier and a member, each in marks of its own; the member `*`
stays bare. The name is cut at its first point, so a member may hold further points.
-/

namespace SqlForge.Flavor

/-- `name` as it is written where SQL expects an identifier. A name without a point is put in
marks only if `bare` is false. -/
def identifier (f : Flavor) (bare : Bool) (name : Text) : Text :=
  let name := Text.strip name
  match Text.cut? '.' name with
  | some (qualifier, member) =>
    f.enclose qualifier ++ '.' :: if member = ['*'] then ['*'] else f.enclose member
  | none => if bare then name else f.enclose name

def quote (f : Flavor) (name : Text) : Text := f.identifier false name

/-- The table `name`, or `none` if the name is blank. -/
def table? (f : Flavor) (name : Text) : Option Text :=
  if Text.strip name = [] then none else some (f.quote name)

end SqlForge.Flavor
