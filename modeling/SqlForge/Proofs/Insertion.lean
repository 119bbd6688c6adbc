import SqlForge.Proofs.Rendering

/-!
# Rows to insert

The text of an `INSERT` is fixed by the quoted names up to the texts of its
values, and these are the literals of the values, in the order of the columns.
-/

namespace SqlForge

namespace Sentence

/-- An `INSERT` with the given quoted names and texts of values. -/
def insertion (table : Text) (columns values : List Text) : Text :=
  "INSERT INTO ".toList ++ table ++ " (".toList ++ Text.join ", ".toList columns ++
    ") VALUES (".toList ++ Text.join ", ".toList values ++ [')']

/-- The text of an `INSERT` before its values. -/
def insertHead (table : Text) (columns : List Text) : Text :=
  "INSERT INTO ".toList ++ table ++ " (".toList ++ Text.join ", ".toList columns ++
    ") VALUES (".toList

theorem insertion_eq (table : Text) (columns values : List Text) :
    insertion table columns values =
      insertHead table columns ++ (Text.join ", ".toList values ++ [')']) := List.append_assoc _ _ _

theorem not_mem_insertHead {x : Char} {table : Text} {columns : List Text}
    (hx : x ∉ "INSERT INTO (, ) VALUES (".toList) (ht : x ∉ table) (hc : ∀ c ∈ columns, x ∉ c) :
    x ∉ insertHead table columns := by
  have part : ∀ s : Text, s ⊆ "INSERT INTO (, ) VALUES (".toList → x ∉ s := fun s hs h => hx (hs h)
  have hj : x ∉ Text.join ", ".toList columns := by
    intro h
    rcases Text.mem_join h with h | ⟨c, hm, h⟩
    · exact part _ (by decide) h
    · exact hc c hm h
  unfold insertHead
  rw [List.mem_append, List.mem_append, List.mem_append, List.mem_append]
  intro h
  rcases h with (((h | h) | h) | h) | h
  · exact part _ (by decide) h
  · exact ht h
  · exact part _ (by decide) h
  · exact hj h
  · exact part _ (by decide) h

theorem insert_eq (d : Dialect) (table : Text) (values : List Assignment) :
    insert d table values = Template.closedRow (insertHead table (values.map fun a => d.quote a.column))
      (values.map fun a => ⟨a.column, a.value⟩) := by
  rw [Template.closedRow, Template.row, List.map_map]
  rfl

theorem spell_insert (d : Dialect) (table : Text) (values : List Assignment) (f : Binding → Text) :
    (insert d table values).spell f = insertion table (values.map fun a => d.quote a.column)
      (values.map fun a => f ⟨a.column, a.value⟩) := by
  rw [insert_eq, Template.spell_closedRow, List.map_map, insertion_eq]
  rfl

theorem slots_insert (d : Dialect) (table : Text) (values : List Assignment) :
    (insert d table values).slots = values.map fun a => ⟨a.column, a.value⟩ := by
  rw [insert_eq, Template.slots_closedRow]

theorem colon_not_mem_insertHead (d : Dialect) {table : Text} {values : List Assignment}
    (ht : ':' ∉ table) (hv : ∀ a ∈ values, ':' ∉ a.column) :
    ':' ∉ insertHead (d.quote table) (values.map fun a => d.quote a.column) := by
  apply not_mem_insertHead (by decide) (colon_not_mem_quote d.flavor ht)
  intro c hc
  obtain ⟨a, ha, rfl⟩ := List.mem_map.mp hc
  exact colon_not_mem_quote d.flavor (hv a ha)

end Sentence

namespace Dialect

theorem compile_ready {d : Dialect} {c : Command} {t : Template} (h : d.plan c = .ready t)
    (begun : Nat) : d.compile begun c = (.ok (d.complete (begun + 1) t), begun + 1) := by
  rw [compile, h]

theorem plan_insert (d : Dialect) {table : Text} {values : List Assignment}
    (ht : isWord table = true) (hne : values ≠ []) :
    d.plan (.insert table values) = .ready (Sentence.insert d (d.quote table) values) := by
  have he : values.isEmpty = false := List.isEmpty_eq_false_iff.mpr hne
  simp only [plan, withTable, table?_of_isWord d.flavor ht, he]
  rfl

/-- **Rows arrive as given.** Under names, and with literals that spell no placeholder of a name, the
literal of each value stands in the place of its column, however the keys collide. -/
theorem insert_sql (d : Dialect) (begun : Nat) {table : Text} {values : List Assignment}
    (ht : isName table = true) (hne : values ≠ [])
    (hv : ∀ a ∈ values, isName a.column = true ∧ d.Quiet a.value) :
    ∃ st, d.compile begun (.insert table values) = (.ok st, begun + 1) ∧
      st.sql = Sentence.insertion (d.quote table) (values.map fun a => d.quote a.column)
        (values.map fun a => d.lit a.value) := by
  have hhead := Sentence.colon_not_mem_insertHead d (colon_not_mem_of_isName ht) fun a ha =>
    colon_not_mem_of_isName (hv a ha).1
  have hfit : Template.Fit d (Sentence.insert d (d.quote table) values) := by
    rw [Sentence.insert_eq]
    apply Template.Fit.closedRow hhead
    intro b hb
    obtain ⟨a, ha, rfl⟩ := List.mem_map.mp hb
    exact hv a ha
  refine ⟨_, compile_ready (plan_insert d (isWord_of_isName ht) hne) begun, ?_⟩
  rw [hfit.complete, Template.inline, Sentence.spell_insert]

/-- Three columns of one name and one that has the name of a numbered key. -/
theorem insert_sql_same_columns :
    let d : Dialect := ⟨.postgres, fun s => '<' :: s ++ ['>'], true⟩
    let values : List Assignment := [⟨"id".toList, .text "it's :id".toList⟩, ⟨"id1".toList, .unsigned 7⟩,
      ⟨"id".toList, .dateTime ⟨2012, 2, 10, 8, 30, 0, 0⟩⟩, ⟨"id".toList, .text "F(id1, ':')".toList⟩]
    (∀ a ∈ values, isName a.column = true ∧ d.Quiet a.value) ∧
      ∃ st, d.compile 0 (.insert "t".toList values) = (.ok st, 1) ∧ st.sql =
        ("INSERT INTO \"t\" (\"id\", \"id1\", \"id\", \"id\") VALUES ('<it's :id>', <7>, " ++
          "'<2012-02-10 08:30:00>', F(\"id1\", '<:>'))").toList := by
  intro d values
  have ht : isName "t".toList = true := by decide
  have hv : ∀ a ∈ values, isName a.column = true ∧ d.Quiet a.value := by decide
  obtain ⟨st, hc, hs⟩ := insert_sql d 0 ht (List.cons_ne_nil _ _) hv
  exact ⟨hv, st, hc, hs.trans (by decide)⟩

end Dialect

end SqlForge
