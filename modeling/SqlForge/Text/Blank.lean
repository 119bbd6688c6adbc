import SqlForge.Text

/-!
# Blank characters

A character is blank if it has the Unicode property `White_Space`. Names, operator
keys and numerals are trimmed of blanks on this wide reading; `isPadding` is the narrow
set that is trimmed from a value before it is written.
-/

namespace SqlForge.Text

/-- The ranges of `White_Space`, first and last code point. -/
def blankRanges : List (Nat × Nat) :=
  [(0x09, 0x0D), (0x20, 0x20), (0x85, 0x85), (0xA0, 0xA0), (0x1680, 0x1680), (0x2000, 0x200A),
   (0x2028, 0x2029), (0x202F, 0x202F), (0x205F, 0x205F), (0x3000, 0x3000)]

def isBlank (c : Char) : Bool :=
  blankRanges.any fun (first, last) => first ≤ c.toNat && c.toNat ≤ last

/-- Space, tab, line feed, carriage return, NUL and vertical tab. -/
def isPadding (c : Char) : Bool :=
  [' ', '\t', '\n', '\r', '\x00', '\x0b'].contains c

def strip (s : Text) : Text := trim isBlank s

/-- Every character that core takes for white space is blank. -/
theorem isBlank_of_isWhitespace {c : Char} (h : c.isWhitespace = true) : isBlank c = true := by
  simp only [Char.isWhitespace, Bool.or_eq_true, decide_eq_true_eq] at h
  rcases h with ((rfl | rfl) | rfl) | rfl <;> decide

end SqlForge.Text
