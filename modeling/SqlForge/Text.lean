/-!
# Text

Every piece of SQL is a list of characters, so that a definition on it is a
recursion that can be unfolded. Here are the operations that the other modules
share: decimal numbers, trimming, cutting at a mark, and replacing.
-/

namespace SqlForge

abbrev Text := List Char

namespace Text

/-! ## Numbers -/

/-- The decimal digits of `n`, without leading zeros. -/
def natural (n : Nat) : Text := Nat.toDigits 10 n

def integer : Int → Text
  | .ofNat n => natural n
  | .negSucc n => '-' :: natural (n + 1)

/-- The decimal digits of `n`, with zeros in front to fill `width` places. -/
def padded (width n : Nat) : Text :=
  List.replicate (width - (natural n).length) '0' ++ natural n

/-! ## Letter case

Only the letters of ASCII have a lower case here; other characters stand for themselves. -/

def lower (s : Text) : Text := s.map Char.toLower

/-- Do `s` and `t` differ in letter case at most? -/
def sameLetters (s t : Text) : Bool := lower s == lower t

/-! ## Trimming -/

def trimStart (p : Char → Bool) (s : Text) : Text := s.dropWhile p

def trimEnd (p : Char → Bool) (s : Text) : Text := (s.reverse.dropWhile p).reverse

def trim (p : Char → Bool) (s : Text) : Text := trimEnd p (trimStart p s)

/-! ## Cutting -/

def cut? (c : Char) : Text → Option (Text × Text)
  | [] => none
  | x :: s => if x = c then some ([], s) else (cut? c s).map fun (a, b) => (x :: a, b)

def beforeLast? (c : Char) : Text → Option Text
  | [] => none
  | x :: s =>
    match beforeLast? c s with
    | some a => some (x :: a)
    | none => if x = c then some [] else none

/-- The parts before and after the first place that spells `w`, in any letter case. -/
def cutWord? (w : Text) : Text → Option (Text × Text)
  | [] => none
  | x :: s =>
    if sameLetters ((x :: s).take w.length) w then some ([], (x :: s).drop w.length)
    else (cutWord? w s).map fun (a, b) => (x :: a, b)

/-! ## Searching and replacing -/

def occurs (w : Text) : Text → Bool
  | [] => w.isEmpty
  | x :: s => w.isPrefixOf (x :: s) || occurs w s

/-- `replaceAfter w v k s` drops the first `k` characters, which belong to an occurrence that has
been replaced already, and replaces `w` by `v` in the rest. -/
def replaceAfter (w v : Text) : Nat → Text → Text
  | _, [] => []
  | k + 1, _ :: s => replaceAfter w v k s
  | 0, x :: s =>
    if w.isPrefixOf (x :: s) then v ++ replaceAfter w v (w.length - 1) s
    else x :: replaceAfter w v 0 s

/-- Every occurrence of `w`, which is not empty, becomes `v`. Occurrences are looked for from the
left and do not overlap. -/
def replace (w v s : Text) : Text := replaceAfter w v 0 s

/-- The texts one after the other, with `sep` between neighbours. -/
def join (sep : Text) (ts : List Text) : Text := sep.intercalate ts

end Text

end SqlForge
