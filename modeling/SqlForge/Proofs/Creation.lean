import SqlForge.Proofs.Definitions
import SqlForge.Proofs.Guards

/-!
# Tables are created from sound columns

The columns are looked at in their order, with the first primary column before them as all that is
remembered. The first column at fault is the error. If there is none, the primary column is the only
one of its kind, and the statement has a line for each column and behind them a line for each key.
-/

namespace SqlForge

namespace Text

/-- A joined text ends as its last part does. -/
theorem getLast?_join_concat (sep : Text) (ts : List Text) {t : Text} (h : t ≠ []) :
    (join sep (ts ++ [t])).getLast? = t.getLast? := by
  by_cases hts : ts = []
  · simp [hts, join]
  · rw [join_append hts (by simp), List.getLast?_append]
    simp [join, List.getLast?_eq_some_getLast h]

end Text

namespace Table

/-! ## The first column at fault -/

/-- The first primary column. -/
def primary? (columns : List Column) : Option Column := columns.find? (·.key = some .primary)

/-- What is wrong with `c` if the columns `before` stand before it. For an enumeration without options
its key does not matter. -/
inductive Fault (before : List Column) (c : Column) : TableError → Prop
  | emptyEnum (h : c.type = .enum []) : Fault before c (.emptyEnum c.name)
  | secondPrimary {first : Column} (htype : c.type ≠ .enum []) (hkey : c.key = some .primary)
      (hfirst : primary? before = some first) : Fault before c (.secondPrimary first.name c.name)

/-- No column is at fault. -/
def Sound (columns : List Column) : Prop :=
  ∀ before c after, columns = before ++ c :: after → ∀ e, ¬ Fault before c e

variable {before columns rest : List Column} {c : Column} {e e' : TableError}

theorem Fault.unique (h : Fault before c e) (h' : Fault before c e') : e' = e := by
  cases h with
  | emptyEnum htype =>
    cases h' with
    | emptyEnum => rfl
    | secondPrimary hne => exact absurd htype hne
  | secondPrimary hne _ hfirst =>
    cases h' with
    | emptyEnum htype => exact absurd htype hne
    | secondPrimary _ _ hfirst' =>
      cases hfirst.symm.trans hfirst'
      rfl

theorem sound_nil : Sound [] := by
  intro before c after h
  simp at h

theorem sound_concat_iff : Sound (columns ++ [c]) ↔ Sound columns ∧ ∀ e, ¬ Fault columns c e := by
  constructor
  · intro h
    refine ⟨fun before c' after hc => h before c' (after ++ [c]) (by simp [hc]), ?_⟩
    exact h columns c [] rfl
  · rintro ⟨hcolumns, hc⟩ before c' after hsplit
    rcases List.append_eq_append_iff.mp hsplit with ⟨l, rfl, hl⟩ | ⟨l, rfl, hl⟩
    · rcases List.singleton_eq_append_iff.mp hl with ⟨rfl, hl⟩ | ⟨-, hl⟩
      · cases hl
        simpa using hc
      · cases hl
    · cases l with
      | nil =>
        cases hl
        simpa using hc
      | cons x l =>
        cases hl
        exact hcolumns before c' l rfl

theorem primary?_concat (columns : List Column) (c : Column) :
    primary? (columns ++ [c]) =
      (primary? columns).or (if c.key = some .primary then some c else none) := by
  rw [primary?, List.find?_append]
  by_cases h : c.key = some .primary
  · simp [primary?, h]
  · simp [primary?, h]

/-- One step: the scan stops at a column that is at fault, and passes over any other. -/
theorem faultAfter?_cons (before : List Column) (c : Column) (rest : List Column) :
    (∃ e, Fault before c e ∧
      faultAfter? ((primary? before).map Column.name) (c :: rest) = some e) ∨
    (∀ e, ¬ Fault before c e) ∧
      faultAfter? ((primary? before).map Column.name) (c :: rest) =
        faultAfter? ((primary? (before ++ [c])).map Column.name) rest := by
  rw [primary?_concat]
  by_cases htype : c.type = .enum []
  · have hfault := Column.fault?_of_empty_enum htype
    exact .inl ⟨_, .emptyEnum htype, by simp [faultAfter?, hfault]⟩
  have hfault := Column.fault?_of_not_empty_enum htype
  by_cases hkey : c.key = some .primary
  · cases hfirst : primary? before with
    | some first =>
      exact .inl ⟨_, .secondPrimary htype hkey hfirst, by simp [faultAfter?, hfault, hkey]⟩
    | none =>
      refine .inr ⟨fun e he => ?_, by simp [faultAfter?, hfault, hkey]⟩
      cases he with
      | emptyEnum h => exact htype h
      | secondPrimary _ _ h => simp [hfirst] at h
  · refine .inr ⟨fun e he => ?_, ?_⟩
    · cases he with
      | emptyEnum h => exact htype h
      | secondPrimary _ h => exact hkey h
    · rw [if_neg hkey, Option.or_none]
      match hk : c.key with
      | some .primary => exact absurd hk hkey
      | none | some .unique | some .index => simp [faultAfter?, hfault, hk]

theorem faultAfter?_eq_some_iff (h : Sound before) :
    faultAfter? ((primary? before).map Column.name) rest = some e ↔
      ∃ pre c post, rest = pre ++ c :: post ∧ Sound (before ++ pre) ∧ Fault (before ++ pre) c e := by
  induction rest generalizing before with
  | nil => simp [faultAfter?]
  | cons c rest ih =>
    rcases faultAfter?_cons before c rest with ⟨e', hfault, hstop⟩ | ⟨hnone, hpass⟩
    · rw [hstop]
      constructor
      · intro he
        cases he
        exact ⟨[], c, rest, rfl, by simpa using h, by simpa using hfault⟩
      · rintro ⟨pre, c', post, hsplit, hsound, hfault'⟩
        cases pre with
        | nil =>
          cases hsplit
          rw [List.append_nil] at hfault'
          rw [hfault.unique hfault']
        | cons x pre =>
          cases hsplit
          exact absurd hfault (hsound before c pre rfl e')
    · have hsnoc : Sound (before ++ [c]) := sound_concat_iff.mpr ⟨h, hnone⟩
      rw [hpass, ih hsnoc]
      constructor
      · rintro ⟨pre, c', post, rfl, hrest⟩
        exact ⟨c :: pre, c', post, rfl, by simpa using hrest⟩
      · rintro ⟨pre, c', post, hsplit, hsound, hfault⟩
        cases pre with
        | nil =>
          cases hsplit
          exact absurd (by simpa using hfault) (hnone e)
        | cons x pre =>
          cases hsplit
          exact ⟨pre, c', post, rfl, by simpa using hsound, by simpa using hfault⟩

theorem sound_of_faultAfter? (h : Sound before)
    (hscan : faultAfter? ((primary? before).map Column.name) rest = none) : Sound (before ++ rest) := by
  induction rest generalizing before with
  | nil => simpa using h
  | cons c rest ih =>
    rcases faultAfter?_cons before c rest with ⟨e', hfault, hstop⟩ | ⟨hnone, hpass⟩
    · rw [hstop] at hscan
      cases hscan
    · rw [hpass] at hscan
      simpa using ih (sound_concat_iff.mpr ⟨h, hnone⟩) hscan

/-- Why no table is made of the columns: there are none, or one is at fault and none before it. -/
inductive Rejected (columns : List Column) : TableError → Prop
  | noColumns (h : columns = []) : Rejected columns .noColumns
  | column {before after : List Column} {c : Column} {e : TableError}
      (h : columns = before ++ c :: after) (hbefore : Sound before) (hfault : Fault before c e) :
      Rejected columns e

theorem fault?_eq_some_iff : fault? columns = some e ↔ Rejected columns e := by
  by_cases hcolumns : columns = []
  · rw [fault?, hcolumns, List.isEmpty_nil, if_pos rfl]
    constructor
    · intro he
      cases he
      exact .noColumns rfl
    · intro h
      cases h with
      | noColumns => rfl
      | column h => simp at h
  · rw [fault?, List.isEmpty_eq_false_iff.mpr hcolumns, if_neg Bool.false_ne_true]
    refine Iff.trans (faultAfter?_eq_some_iff sound_nil) ⟨?_, fun h => ?_⟩
    · rintro ⟨before, c, after, h, hbefore, hfault⟩
      exact .column h hbefore hfault
    · cases h with
      | noColumns h => exact absurd h hcolumns
      | column h hbefore hfault => exact ⟨_, _, _, h, hbefore, hfault⟩

theorem sound_of_not_rejected (h : ∀ e, ¬ Rejected columns e) : columns ≠ [] ∧ Sound columns := by
  have hcolumns : columns ≠ [] := fun hnil => h _ (.noColumns hnil)
  refine ⟨hcolumns, sound_of_faultAfter? sound_nil ?_⟩
  have hfault : fault? columns = none :=
    Option.eq_none_iff_forall_ne_some.mpr fun e he => h e (fault?_eq_some_iff.mp he)
  rwa [fault?, List.isEmpty_eq_false_iff.mpr hcolumns, if_neg Bool.false_ne_true] at hfault

/-! ## Sound columns -/

theorem Sound.type_ne (h : Sound columns) (hc : c ∈ columns) : c.type ≠ .enum [] := by
  obtain ⟨before, after, rfl⟩ := List.append_of_mem hc
  exact fun htype => h before c after rfl _ (.emptyEnum htype)

/-- Sound columns have one primary column at most. -/
theorem Sound.filter_primary (h : Sound columns) :
    columns.filter (·.key = some .primary) = (primary? columns).toList := by
  induction columns using List.reverseRecOn with
  | nil => rfl
  | append_singleton before c ih =>
    obtain ⟨hbefore, hc⟩ := sound_concat_iff.mp h
    rw [List.filter_append, ih hbefore, primary?_concat]
    by_cases hkey : c.key = some .primary
    · cases hfirst : primary? before with
      | none => simp [hkey]
      | some first =>
        have htype : c.type ≠ .enum [] := h.type_ne (by simp)
        exact absurd (.secondPrimary htype hkey hfirst) (hc _)
    · simp [hkey]

theorem Sound.primary?_eq_some_iff (h : Sound columns) :
    primary? columns = some c ↔ c ∈ columns ∧ c.key = some .primary := by
  rw [← Option.mem_toList, ← h.filter_primary, List.mem_filter, decide_eq_true_iff]

/-! ## The lines of the body -/

/-- The line of a key, which is named after its column unless it is the primary one. -/
def keyLine (d : Dialect) (role : KeyKind) (c : Column) : Text :=
  match role with
  | .primary => "PRIMARY KEY (".toList ++ d.quote c.name ++ [')']
  | .unique => "UNIQUE KEY ".toList ++ d.quote c.name ++ " (".toList ++ d.quote c.name ++ [')']
  | .index => "KEY ".toList ++ d.quote c.name ++ " (".toList ++ d.quote c.name ++ [')']

/-- Each column has its definition, in the order of the columns. Behind the definitions stand one line
for the primary column, if there is one, and then one for each unique column and each other key. -/
def Lays (d : Dialect) (columns : List Column) (lines : List Text) : Prop :=
  ∃ definitions main?, columns.Forall₂ (fun c text => c.define d = .ok text) definitions ∧
    (∀ c, main? = some c ↔ c ∈ columns ∧ c.key = some .primary) ∧
    lines = definitions ++ main?.toList.map (keyLine d .primary) ++
      (columns.filter (·.key = some .unique)).map (keyLine d .unique) ++
      (columns.filter (·.key = some .index)).map (keyLine d .index)

section
variable {d : Dialect} {lines : List Text}

theorem lays_of_sound (h : Sound columns) :
    Lays d columns (columns.map (·.definition d) ++ keyLines d columns) := by
  refine ⟨columns.map (·.definition d), primary? columns, ?_, fun c => h.primary?_eq_some_iff, ?_⟩
  · rw [List.forall₂_map_right_iff, List.forall₂_same]
    intro c hc
    exact (c.define_eq_ok_iff d).mpr ⟨h.type_ne hc, rfl⟩
  · rw [keyLines, keyed, keyed, keyed, List.map_map, List.map_map, List.map_map, h.filter_primary,
      ← List.append_assoc, ← List.append_assoc]
    rfl

theorem eq_map_of_defined {definitions : List Text}
    (h : columns.Forall₂ (fun c text => c.define d = .ok text) definitions) :
    definitions = columns.map (·.definition d) := by
  induction h with
  | nil => rfl
  | @cons c _ _ _ hc _ ih => rw [List.map_cons, ← ih, ((c.define_eq_ok_iff d).mp hc).2]

theorem getLast?_front (d : Dialect) (c : Column) : (c.front d).getLast? = some 'L' := by
  have hnull : c.nullWord = "NULL".toList ∨ c.nullWord = "NOT NULL".toList := by
    unfold Column.nullWord
    split
    · exact .inl rfl
    · exact .inr rfl
  rcases hnull with hw | hw
  · rw [Column.front, hw, Text.getLast?_join_concat _ _ (by decide)]
    rfl
  · rw [Column.front, hw, Text.getLast?_join_concat _ _ (by decide)]
    rfl

theorem getLast?_clause (d : Dialect) (keyword : Text) (s? : Option Text) :
    (Column.clause d keyword s?).getLast? = s?.map fun _ => '\'' := by
  cases s? with
  | none => rfl
  | some s => simp [Column.clause, Dialect.literal, List.getLast?_append, List.getLast?_cons]

theorem getLast?_definition (d : Dialect) (c : Column) :
    (c.definition d).getLast? ≠ some ',' := by
  rw [Column.definition_eq, Column.withDefault, List.getLast?_append, List.getLast?_append,
    getLast?_front, getLast?_clause, getLast?_clause]
  cases c.writtenDefault? <;> cases c.comment.filter (!·.isEmpty) <;> simp

theorem getLast?_keyLine (d : Dialect) (role : KeyKind) (c : Column) :
    (keyLine d role c).getLast? = some ')' := by
  cases role with
  | primary => exact List.getLast?_concat
  | unique => exact List.getLast?_concat
  | index => exact List.getLast?_concat

theorem Lays.getLast?_ne (h : Lays d columns lines) {t : Text} (ht : t ∈ lines) :
    t.getLast? ≠ some ',' := by
  obtain ⟨definitions, main?, hdefinitions, -, rfl⟩ := h
  simp only [List.mem_append, List.mem_map] at ht
  rcases ht with ((ht | ⟨c, -, rfl⟩) | ⟨c, -, rfl⟩) | ⟨c, -, rfl⟩
  · rw [eq_map_of_defined hdefinitions, List.mem_map] at ht
    obtain ⟨c, -, rfl⟩ := ht
    exact getLast?_definition d c
  · simp [getLast?_keyLine]
  · simp [getLast?_keyLine]
  · simp [getLast?_keyLine]

/-- The lines with a tabulator before each and a comma and a line feed between neighbours. -/
def linesText (lines : List Text) : Text := Text.join ",\n".toList (lines.map ('\t' :: ·))

theorem getLast?_linesText (hne : lines ≠ []) (h : ∀ t ∈ lines, t.getLast? ≠ some ',') :
    (linesText lines).getLast? ≠ some ',' := by
  obtain rfl | ⟨init, t, rfl⟩ := List.eq_nil_or_concat' lines
  · exact absurd rfl hne
  · rw [linesText, List.map_append, List.map_singleton,
      Text.getLast?_join_concat _ _ (List.cons_ne_nil _ _), List.getLast?_cons]
    have ht := h t (by simp)
    cases hl : t.getLast? with
    | none => simp
    | some c => simpa [hl] using ht

end

/-! ## The answer to the command -/

/-- Why a table is not created. A blank name counts before anything about the columns. -/
inductive Refusal (table : Text) (columns : List Column) : CommandError → Prop
  | noTable (htable : table.all Text.isBlank = true) : Refusal table columns .noTable
  | columns {e : TableError} (htable : table.all Text.isBlank = false) (h : Rejected columns e) :
      Refusal table columns (.table e)

section
variable {d : Dialect} {table : Text} {o : TableOptions}

theorem plan_create_of_blank (h : table.all Text.isBlank = true) :
    d.plan (.create table columns o) = .refused .noTable := by
  have hplan : d.plan (.create table columns o) = _ := d.withTable_eq table _
  rwa [if_pos h] at hplan

theorem plan_create (h : table.all Text.isBlank = false) :
    d.plan (.create table columns o) =
      match fault? columns with
      | some e => .refused (.table e)
      | none => .ready (.ofText (create d (d.quote table) columns o)) := by
  have hplan : d.plan (.create table columns o) = _ := d.withTable_eq table _
  rwa [h, if_neg Bool.false_ne_true] at hplan

/-- Nothing is bound in fixed text, so there is nothing to fill in. -/
theorem complete_ofText (d : Dialect) (number : Nat) (s : Text) :
    d.complete number (.ofText s) = ⟨number, s, .empty⟩ := by
  simp [Dialect.complete, Dialect.finish, Template.write, Template.ofText, Bindings.fill, Bindings.empty,
    Bindings.Raw.empty, Bindings.fillAll]

theorem create_fails_iff (begun : Nat) {e : CommandError} :
    (d.compile begun (.create table columns o)).1 = .error e ↔ Refusal table columns e := by
  cases htable : table.all Text.isBlank with
  | true =>
    rw [Dialect.compile, plan_create_of_blank htable]
    constructor
    · intro he
      cases he
      exact .noTable htable
    · intro h
      cases h with
      | noTable => rfl
      | columns hfalse => simp [htable] at hfalse
  | false =>
    rw [Dialect.compile, plan_create htable]
    cases hfault : fault? columns with
    | some e' =>
      constructor
      · intro he
        cases he
        exact .columns htable (fault?_eq_some_iff.mp hfault)
      · intro h
        cases h with
        | noTable htrue => simp [htable] at htrue
        | columns _ hrejected =>
          rw [fault?_eq_some_iff.mpr hrejected] at hfault
          cases hfault
          rfl
    | none =>
      refine ⟨fun he => (by cases he), fun h => ?_⟩
      cases h with
      | noTable htrue => simp [htable] at htrue
      | columns _ hrejected =>
        rw [fault?_eq_some_iff.mpr hrejected] at hfault
        cases hfault

end

/-- **Tables are created from sound columns.** The command fails exactly if the name is blank, if there is no
column, or if a column is an enumeration without options or a second primary one; of the columns at fault
the first is reported. Otherwise each column and then each key has one line in the body, which ends
without a comma, and as nothing is bound the text comes out as it was written. -/
theorem create_outcome (d : Dialect) (begun : Nat) (table : Text) (columns : List Column)
    (o : TableOptions) :
    (∀ e, (d.compile begun (.create table columns o)).1 = .error e ↔ Refusal table columns e) ∧
    ((∀ e, ¬ Refusal table columns e) → ∃ lines st, Lays d columns lines ∧
      (linesText lines).getLast? ≠ some ',' ∧
      d.compile begun (.create table columns o) = (.ok st, begun + 1) ∧ st.bindings = .empty ∧
      st.sql = "CREATE TABLE IF NOT EXISTS ".toList ++ d.quote table ++ " (\n".toList ++
        linesText lines ++ "\n) ".toList ++ optionsText d o) := by
  refine ⟨fun e => create_fails_iff begun, fun hno => ?_⟩
  have htable : table.all Text.isBlank = false := by
    by_contra h
    exact hno _ (.noTable (by simpa using h))
  have hrejected : ∀ e, ¬ Rejected columns e := fun e he => hno _ (.columns htable he)
  obtain ⟨hne, hsound⟩ := sound_of_not_rejected hrejected
  have hlays : Lays d columns _ := lays_of_sound hsound
  have hplan : d.plan (.create table columns o) =
      .ready (.ofText (create d (d.quote table) columns o)) := by
    rw [plan_create htable,
      Option.eq_none_iff_forall_ne_some.mpr fun e he => hrejected e (fault?_eq_some_iff.mp he)]
  have hlines : columns.map (·.definition d) ++ keyLines d columns ≠ [] :=
    List.append_ne_nil_of_left_ne_nil (mt List.map_eq_nil_iff.mp hne) _
  have hcompile := Dialect.compile_ready hplan begun
  rw [complete_ofText] at hcompile
  exact ⟨_, _, hlays, getLast?_linesText hlines fun t => hlays.getLast?_ne, hcompile, rfl, rfl⟩

/-- Names, a default and a comment with colons, and a column with two faults. -/
theorem create_outcome_colons :
    let d : Dialect := .ofFlavor .mysql
    let id : Column := ⟨":id".toList, .integer, none, false, true, false, true, none, none,
      some .primary⟩
    let note : Column := ⟨"note".toList, .text, some 30, true, false, false, false,
      some ":id".toList, some "a:note,".toList, some .index⟩
    let state : Column := ⟨"state".toList, .enum [], none, false, false, false, false, none, none,
      some .primary⟩
    (∀ e, ¬ Refusal "t:id".toList [id, note] e) ∧
      (∃ lines st, Lays d [id, note] lines ∧
        d.compile 0 (.create "t:id".toList [id, note] default) = (.ok st, 1) ∧
        st.sql = "CREATE TABLE IF NOT EXISTS `t:id` (\n".toList ++ linesText lines ++
          "\n) ".toList ++ optionsText d default) ∧
      Refusal "t".toList [id, state] (.table (.emptyEnum "state".toList)) ∧
      Refusal "t".toList [id, note, id] (.table (.secondPrimary ":id".toList ":id".toList)) := by
  intro d id note state
  have hno : ∀ e, ¬ Refusal "t:id".toList [id, note] e := fun e he => by
    cases ((create_outcome d 0 "t:id".toList [id, note] default).1 e).mpr he
  obtain ⟨lines, st, hlays, -, hcompile, -, hsql⟩ :=
    (create_outcome d 0 "t:id".toList [id, note] default).2 hno
  refine ⟨hno, ⟨lines, st, hlays, hcompile, hsql⟩, ?_, ?_⟩
  · exact ((create_outcome d 0 "t".toList [id, state] default).1 _).mp (by decide)
  · exact ((create_outcome d 0 "t".toList [id, note, id] default).1 _).mp (by decide)

end Table

end SqlForge
