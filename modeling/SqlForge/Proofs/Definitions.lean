import SqlForge.Table.Definition
import SqlForge.Proofs.Texts

/-!
# The default in a definition

A definition begins with the name of the column, its type and whether it may be null; behind them stand
a clause for the default and one for the comment, if there is something to write. An empty default
counts as none, in an enumeration too, where one option has to be written in any case.
-/

namespace SqlForge.Column

/-- What every definition begins with: the name, the type and the word for null. -/
def front (d : Dialect) (c : Column) : Text :=
  Text.join [' '] (d.quote c.name :: c.typeWords d ++ [c.nullWord])

/-- A keyword and a literal in one clause, if there is a text to write. -/
def clause (d : Dialect) (keyword : Text) : Option Text → Text
  | some s => ' ' :: keyword ++ ' ' :: d.literal s
  | none => []

/-- The definition with `default?` in the place of the default. -/
def withDefault (d : Dialect) (c : Column) (default? : Option Text) : Text :=
  c.front d ++ (clause d "DEFAULT".toList default? ++
    clause d "COMMENT".toList (c.comment.filter (!·.isEmpty)))

/-- A default is declared that is not empty. -/
def Declares (c : Column) (s : Text) : Prop := c.default = some s ∧ s ≠ []

theorem flatMap_literalWord (d : Dialect) (keyword : Text) (s? : Option Text) :
    (literalWord d keyword s?).flatMap ([' '] ++ ·) = clause d keyword s? := by
  cases s? with
  | none => rfl
  | some s => simp [literalWord, clause]

section
variable (d : Dialect) (c : Column)

theorem definition_eq : c.definition d = c.withDefault d c.writtenDefault? := by
  unfold definition withDefault front
  rw [List.cons_append, List.cons_append, List.cons_append, Text.join_cons, List.flatMap_append,
    List.flatMap_append, flatMap_literalWord, flatMap_literalWord, Text.join_cons]
  simp only [List.append_assoc]

theorem fault?_of_empty_enum {c : Column} (h : c.type = .enum []) :
    c.fault? = some (.emptyEnum c.name) := by
  rw [fault?, h]

theorem fault?_of_not_empty_enum {c : Column} (h : c.type ≠ .enum []) : c.fault? = none := by
  unfold fault?
  split
  · exact absurd ‹_› h
  · rfl

theorem define_eq_ok_iff {text : Text} :
    c.define d = .ok text ↔ c.type ≠ .enum [] ∧ text = c.definition d := by
  by_cases htype : c.type = .enum []
  · simp [define, fault?_of_empty_enum htype, htype]
  · simp [define, fault?_of_not_empty_enum htype, htype, eq_comm]

theorem withDefault_some_eq_iff {s s' : Text} :
    c.withDefault d (some s) = c.withDefault d (some s') ↔ d.escape s = d.escape s' := by
  unfold withDefault clause Dialect.literal
  simp

theorem withDefault_none_ne (s : Text) : c.withDefault d none ≠ c.withDefault d (some s) := by
  intro h
  have hl := congrArg List.length h
  simp only [withDefault, clause, List.length_append, List.length_cons, List.length_nil] at hl
  omega

end

section
variable {c : Column}

theorem filter_default_eq_some_iff {s : Text} :
    c.default.filter (!·.isEmpty) = some s ↔ c.Declares s := by
  rw [Option.filter_eq_some_iff, Declares]
  simp

theorem writtenDefault?_of_enum {os : List Text} (h : c.type = .enum os) (hne : os ≠ []) :
    ∃ o ∈ os, c.writtenDefault? = some o ∧ ((∃ s ∈ os, c.Declares s) → c.Declares o) ∧
      ((¬ ∃ s ∈ os, c.Declares s) → os.head? = some o) := by
  obtain ⟨first, rest, rfl⟩ := List.exists_cons_of_ne_nil hne
  have hwritten : c.writtenDefault? =
      some (((c.default.filter (!·.isEmpty)).filter ((first :: rest).contains ·)).getD first) := by
    unfold writtenDefault?
    rw [h]
  by_cases hdeclared : ∃ s ∈ first :: rest, c.Declares s
  · obtain ⟨s, hs, hd⟩ := hdeclared
    refine ⟨s, hs, ?_, fun _ => hd, fun hn => absurd ⟨s, hs, hd⟩ hn⟩
    have hcontains : (first :: rest).contains s = true := List.contains_iff_mem.mpr hs
    rw [hwritten, filter_default_eq_some_iff.mpr hd, Option.filter_some, if_pos hcontains,
      Option.getD_some]
  · refine ⟨first, List.mem_cons_self, ?_, fun hd => absurd hd hdeclared, fun _ => rfl⟩
    have hnone : (c.default.filter (!·.isEmpty)).filter ((first :: rest).contains ·) = none := by
      refine Option.filter_eq_none_iff.mpr fun s hs hcontains => hdeclared ⟨s, ?_, ?_⟩
      · exact List.contains_iff_mem.mp hcontains
      · exact filter_default_eq_some_iff.mp hs
    rw [hwritten, hnone, Option.getD_none]

theorem writtenDefault?_eq_some_iff (h : ∀ os, c.type ≠ .enum os) {s : Text} :
    c.writtenDefault? = some s ↔ c.Declares s ∧ c.autoIncrement = false := by
  have hwritten : c.writtenDefault? =
      if c.autoIncrement then none else c.default.filter (!·.isEmpty) := by
    unfold writtenDefault?
    split
    · rename_i htype
      exact absurd htype (h _)
    · rename_i htype
      exact absurd htype (h _)
    · rfl
  rw [hwritten]
  cases c.autoIncrement with
  | true => simp
  | false => simpa using filter_default_eq_some_iff

end

/-- **A default is written if it is declared and not empty.** An enumeration always carries one of its
options, the declared one if that is an option and not empty, and the first one otherwise. Any other
column carries the literal of a default exactly if this is declared, not empty, and the column does
not count itself up. -/
theorem default_written {d : Dialect} {c : Column} {text : Text} (h : c.define d = .ok text) :
    (∀ os, c.type = .enum os → ∃ o ∈ os, text = c.withDefault d (some o) ∧
      ((∃ s ∈ os, c.Declares s) → c.Declares o) ∧
      ((¬ ∃ s ∈ os, c.Declares s) → os.head? = some o)) ∧
    ((∀ os, c.type ≠ .enum os) →
      (∀ s, text = c.withDefault d (some s) ↔
        ∃ s', c.Declares s' ∧ c.autoIncrement = false ∧ d.escape s' = d.escape s) ∧
      (text = c.withDefault d none ↔ ∀ s, ¬ (c.Declares s ∧ c.autoIncrement = false))) := by
  obtain ⟨hne, rfl⟩ := (c.define_eq_ok_iff d).mp h
  rw [definition_eq]
  constructor
  · intro os hos
    obtain ⟨o, ho, hwritten, hdeclared, hfirst⟩ :=
      writtenDefault?_of_enum hos (by rintro rfl; exact hne hos)
    exact ⟨o, ho, by rw [hwritten], hdeclared, hfirst⟩
  · intro hos
    have hsome := fun s => writtenDefault?_eq_some_iff hos (s := s)
    cases hw : c.writtenDefault? with
    | none =>
      have hno : ∀ s, ¬ (c.Declares s ∧ c.autoIncrement = false) := fun s hs => by
        rw [(hsome s).mpr hs] at hw
        cases hw
      refine ⟨fun s => ⟨fun he => absurd he (c.withDefault_none_ne d s), ?_⟩, by simpa using hno⟩
      rintro ⟨s', hd, hauto, -⟩
      exact absurd ⟨hd, hauto⟩ (hno s')
    | some o =>
      obtain ⟨hd, hauto⟩ := (hsome o).mp hw
      refine ⟨fun s => ?_, ?_⟩
      · rw [c.withDefault_some_eq_iff d]
        constructor
        · intro he
          exact ⟨o, hd, hauto, he⟩
        · rintro ⟨s', hd', -, he⟩
          rw [Option.some.inj (hd.1.symm.trans hd'.1), he]
      · constructor
        · intro he
          exact absurd he.symm (c.withDefault_none_ne d o)
        · intro hno
          exact absurd ⟨hd, hauto⟩ (hno o)

/-- A column with a default and one without, and an enumeration that counts itself up. -/
theorem default_written_cases :
    let d : Dialect := .ofFlavor .mysql
    let note : Column := ⟨"note".toList, .text, some 30, true, false, false, false,
      some "it's".toList, some "DEFAULT".toList, none⟩
    let id : Column := ⟨"id".toList, .integer, none, true, true, false, true, some "5".toList, none,
      some .primary⟩
    let state : Column := ⟨"state".toList, .enum ["new".toList, "paid".toList], none, false, false,
      false, true, some "paid".toList, none, none⟩
    (∃ text, note.define d = .ok text ∧ (∀ os, note.type ≠ .enum os) ∧
      text = note.withDefault d (some "it's".toList)) ∧
    (∃ text, id.define d = .ok text ∧ (∀ os, id.type ≠ .enum os) ∧ text = id.withDefault d none) ∧
    ∃ text, state.define d = .ok text ∧ ∃ o, text = state.withDefault d (some o) ∧ state.Declares o := by
  intro d note id state
  have hnote : ∀ os, note.type ≠ .enum os := fun os h => by cases h
  have hid : ∀ os, id.type ≠ .enum os := fun os h => by cases h
  obtain ⟨o, -, hstate, hdeclared, -⟩ := (default_written (d := d) (c := state) rfl).1 _ rfl
  refine ⟨⟨_, rfl, hnote, ?_⟩, ⟨_, rfl, hid, ?_⟩, _, rfl, o, hstate, ?_⟩
  · exact (((default_written (d := d) (c := note) rfl).2 hnote).1 _).mpr
      ⟨_, ⟨rfl, by decide⟩, rfl, rfl⟩
  · refine ((default_written (d := d) (c := id) rfl).2 hid).2.mpr fun s hs => ?_
    exact absurd hs.2 (by decide)
  · exact hdeclared ⟨"paid".toList, by decide, rfl, by decide⟩

/-- An empty default is not written, and an enumeration does not get it though it is an option. -/
theorem empty_default_left_out :
    let d : Dialect := .ofFlavor .mysql
    (⟨"c".toList, .text, none, false, false, false, false, some [], none, none⟩ : Column).define d =
        .ok "`c` VARCHAR(255) NOT NULL".toList ∧
      (⟨"e".toList, .enum ["a".toList, []], none, false, false, false, false, some [], none,
        none⟩ : Column).define d = .ok "`e` ENUM('a', '') NOT NULL DEFAULT 'a'".toList :=
  ⟨(define_eq_ok_iff _ _).mpr ⟨by decide, by decide⟩,
    (define_eq_ok_iff _ _).mpr ⟨by decide, by decide⟩⟩

end SqlForge.Column
