import SqlForge.Identifier

/-!
# Dialects

A dialect is a flavor together with the way in which it protects what goes between quotes.
-/

namespace SqlForge

structure Dialect where
  flavor : Flavor
  /-- Makes a text safe between the quotes of a string literal. -/
  escape : Text → Text
  /-- Are values escaped before they are filled in? -/
  cleans : Bool

namespace Dialect

/-- A flavor with the escapes that belong to it. -/
def ofFlavor (f : Flavor) : Dialect := ⟨f, f.escape, true⟩

def quote (d : Dialect) (name : Text) : Text := d.flavor.quote name

def literal (d : Dialect) (s : Text) : Text := '\'' :: d.escape s ++ ['\'']

/-- The escape that values are passed through when they are filled in. -/
def cleaner? (d : Dialect) : Option (Text → Text) := if d.cleans then some d.escape else none

end Dialect

end SqlForge
