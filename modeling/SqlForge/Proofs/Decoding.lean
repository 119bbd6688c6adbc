import SqlForge.Proofs.Literals
import SqlForge.Proofs.Rendering

/-!
# Reading literals back

A server has rules of its own for what a string literal says and where it ends.
What it reads is the text that was escaped, and it stops at the quote that was
put there. Trimming comes after escaping, so it cuts the padding that has no
escape: it is a trimming of the text itself, by a set that depends on the flavor.
-/

namespace SqlForge.Flavor

/-! ## The reader -/

/-- What a backslash and `c` say together, in the flavor where a backslash escapes. The two signs of
a pattern keep their backslash. -/
def unescape (c : Char) : Text :=
  match c with
  | '0' => ['\x00']
  | 'b' => ['\x08']
  | 'n' => ['\n']
  | 'r' => ['\r']
  | 't' => ['\t']
  | 'Z' => ['\x1a']
  | '%' => ['\\', '%']
  | '_' => ['\\', '_']
  | c => [c]

def said (s : Text) (r : Text × Text) : Text × Text := (s ++ r.1, r.2)

/-- What the body of a literal says, and the text behind the quote that closes it. -/
def readBody? (f : Flavor) : Text → Option (Text × Text)
  | [] => none
  | '\'' :: '\'' :: s => (readBody? f s).map (said ['\''])
  | '\'' :: s => some ([], s)
  | '\\' :: c :: s =>
    if f = .mysql then (readBody? f s).map (said (unescape c))
    else (readBody? f (c :: s)).map (said ['\\'])
  | c :: s => (readBody? f s).map (said [c])

def readLiteral? (f : Flavor) : Text → Option (Text × Text)
  | '\'' :: s => f.readBody? s
  | _ => none

/-- What the flavor can hold of a text. -/
def stored : Flavor → Text → Text
  | mysql, s => s
  | postgres, s | sqlite, s => s.filter (· ≠ '\x00')

/-- Is `c` padding that is written without an escape? -/
def isEdge : Flavor → Char → Bool
  | mysql, c => [' ', '\t', '\x0b'].contains c
  | postgres, c | sqlite, c => [' ', '\t', '\n', '\r', '\x0b'].contains c

/-! ## Reading what was escaped -/

theorem map_said_nil (r : Option (Text × Text)) : r.map (said []) = r := by
  cases r <;> rfl

theorem map_said_said (s t : Text) (r : Option (Text × Text)) :
    (r.map (said t)).map (said s) = r.map (said (s ++ t)) := by
  cases r <;> simp [said]

theorem stored_append (f : Flavor) (s t : Text) : f.stored (s ++ t) = f.stored s ++ f.stored t := by
  cases f with
  | mysql => rfl
  | postgres | sqlite => exact List.filter_append s t

theorem readBody?_plain {f : Flavor} {c : Char} (hc : f.isPlain c = true) (s : Text) :
    f.readBody? (c :: s) = (f.readBody? s).map (said [c]) := by
  have hq := ne_quote_of_isPlain hc
  by_cases hb : c = '\\'
  · subst hb
    cases s with
    | nil => rfl
    | cons x s =>
      have hf : f ≠ .mysql := by rintro rfl; cases hc
      rw [readBody?, if_neg hf]
  · conv_lhs => unfold readBody?
    split <;> simp_all

theorem readBody?_close (f : Flavor) {s : Text} (h : s.head? ≠ some '\'') :
    f.readBody? ('\'' :: s) = some ([], s) := by
  cases s with
  | nil => rfl
  | cons c s =>
    have hc : c ≠ '\'' := fun e => h (congrArg some e)
    simp [readBody?, hc]

theorem readBody?_escapeChar (f : Flavor) (c : Char) (s : Text) :
    f.readBody? (f.escapeChar c ++ s) = (f.readBody? s).map (said (f.stored [c])) := by
  cases f with
  | mysql =>
    simp only [escapeChar, stored]
    split
    case h_8 => exact readBody?_plain (by simp_all [isPlain]) s
    all_goals rfl
  | postgres | sqlite =>
    simp only [escapeChar, stored]
    split
    · exact (map_said_nil _).symm
    · rfl
    · rename_i h0 hq
      have hc : [c].filter (· ≠ '\x00') = [c] := by simpa using h0
      rw [hc]
      exact readBody?_plain (by simpa [isPlain] using hq) s

theorem readBody?_escape (f : Flavor) (t : Text) : ∀ s : Text,
    f.readBody? (f.escape s ++ t) = (f.readBody? t).map (said (f.stored s))
  | [] => by cases f <;> exact (map_said_nil _).symm
  | c :: s => by
    have ih := readBody?_escape f t s
    rw [escape] at ih ⊢
    rw [List.flatMap_cons, List.append_assoc, readBody?_escapeChar, ih, map_said_said, ← stored_append]
    rfl

theorem readLiteral?_quoted_escape (f : Flavor) (s : Text) {rest : Text}
    (h : rest.head? ≠ some '\'') :
    f.readLiteral? (quoted (f.escape s) ++ rest) = some (f.stored s, rest) := by
  have hr := f.readBody?_escape ('\'' :: rest) s
  rw [f.readBody?_close h] at hr
  simpa [quoted, readLiteral?, said] using hr

/-! ## Trimming behind the escape -/

theorem escape_stored (f : Flavor) (s : Text) : f.escape (f.stored s) = f.escape s := by
  cases f with
  | mysql => rfl
  | postgres | sqlite =>
    induction s with
    | nil => rfl
    | cons c s ih =>
      by_cases hc : c = '\x00'
      · simpa [stored, escape, hc, escapeChar] using ih
      · simpa [stored, escape, hc] using ih

theorem stored_of_mem {f : Flavor} {s t : Text} (h : ∀ c ∈ t, c ∈ f.stored s) : f.stored t = t := by
  cases f with
  | mysql => rfl
  | postgres | sqlite => exact List.filter_eq_self.mpr fun c hc => (List.mem_filter.mp (h c hc)).2

theorem isPadding_of_isEdge {f : Flavor} {c : Char} (hc : f.isEdge c = true) :
    ∀ x ∈ f.escapeChar c, Text.isPadding x = true := by
  rw [← List.all_eq_true]
  cases f with
  | mysql =>
    simp [isEdge] at hc
    rcases hc with rfl | rfl | rfl <;> decide
  | postgres | sqlite =>
    simp [isEdge] at hc
    rcases hc with rfl | rfl | rfl | rfl | rfl <;> decide

/-- Behind a character that is no edge nothing is trimmed. -/
theorem escapeChar_of_not_isEdge {f : Flavor} {c : Char} {s : Text} (hs : c ∈ f.stored s)
    (hc : f.isEdge c = false) : f.escapeChar c ≠ [] ∧
      (∀ x ∈ (f.escapeChar c).head?, Text.isPadding x = false) ∧
      ∀ x ∈ (f.escapeChar c).getLast?, Text.isPadding x = false := by
  cases f with
  | mysql =>
    simp only [escapeChar]
    split
    case h_8 =>
      have hp : Text.isPadding c = false := by simp_all [isEdge, Text.isPadding]
      simpa using hp
    all_goals simp [Text.isPadding]
  | postgres | sqlite =>
    have h0 : c ≠ '\x00' := by simpa using (List.mem_filter.mp hs).2
    simp only [escapeChar]
    split
    · contradiction
    · simp [Text.isPadding]
    · have hp : Text.isPadding c = false := by simp_all [isEdge, Text.isPadding]
      simpa using hp

/-- To trim what was escaped is to escape what was trimmed. -/
theorem trim_escape (f : Flavor) (s : Text) :
    Text.trim Text.isPadding (f.escape s) = f.escape (Text.trim f.isEdge (f.stored s)) := by
  rw [← f.escape_stored s]
  exact Text.trim_flatMap (fun _ _ hc => isPadding_of_isEdge hc) fun _ hs hc =>
    escapeChar_of_not_isEdge hs hc

/-- **A literal says what was escaped.** Read by the rules of its flavor, it ends at its own quote
and gives the text back, but for what the flavor cannot hold. With its padding cut off it ends at the
same place and gives the text without the padding around it that has no escape. -/
theorem literal_read (f : Flavor) (s : Text) {rest : Text} (h : rest.head? ≠ some '\'') :
    f.readLiteral? (quoted (f.escape s) ++ rest) = some (f.stored s, rest) ∧
    f.readLiteral? (quoted (Text.trim Text.isPadding (f.escape s)) ++ rest) =
      some (Text.trim f.isEdge (f.stored s), rest) ∧
    (isCall s = false → (Value.text s).filling (some f.escape) =
      Text.trim Text.isPadding (f.escape s)) := by
  have hstored : f.stored (Text.trim f.isEdge (f.stored s)) = Text.trim f.isEdge (f.stored s) :=
    stored_of_mem fun c hc => Text.mem_of_mem_trim hc
  refine ⟨f.readLiteral?_quoted_escape s h, ?_, fun hcall => ?_⟩
  · rw [trim_escape, f.readLiteral?_quoted_escape _ h, hstored]
  · simp [Value.filling, Value.raw, hcall]

/-- Backslashes and quotes at the ends, and padding of both kinds around them. -/
theorem literal_read_edges :
    let s := "\t \n'\\ it's\x00\r\x0b ".toList
    let rest := ", '')".toList
    rest.head? ≠ some '\'' ∧ isCall s = false ∧
      mysql.readLiteral? (quoted (mysql.escape s) ++ rest) = some (s, rest) ∧
      mysql.readLiteral? (quoted ((Value.text s).filling (some mysql.escape)) ++ rest) =
        some ("\n'\\ it's\x00\r".toList, rest) ∧
      sqlite.readLiteral? (quoted ((Value.text s).filling (some sqlite.escape)) ++ rest) =
        some ("'\\ it's".toList, rest) := by
  intro s rest
  have h : rest.head? ≠ some '\'' := by decide
  have hcall : isCall s = false := by decide
  obtain ⟨hescaped, hm, hfillm⟩ := literal_read mysql s h
  obtain ⟨-, hs, hfills⟩ := literal_read sqlite s h
  rw [hfillm hcall, hfills hcall]
  exact ⟨h, hcall, hescaped, hm, hs⟩

end SqlForge.Flavor
