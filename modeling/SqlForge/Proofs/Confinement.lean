import SqlForge.Proofs.Insertion
import SqlForge.Proofs.Literals

/-!
# Strings stay between their quotes

Whatever strings a row holds, even placeholders of the statement itself, each
ends as the body of one literal, and the rest of the text is fixed by the
names. Nothing that a string holds can close its literal.
-/

namespace SqlForge

/-- A text that is written as a string: it is not absent or empty, no call and no number. -/
def Value.isString : Value → Bool
  | .text s => s != "NULL".toList && !s.isEmpty && !isCall s && !isNumeral s
  | _ => false

theorem Value.exists_of_isString {v : Value} (h : v.isString = true) :
    ∃ s, v = .text s ∧ s ≠ "NULL".toList ∧ s ≠ [] ∧ isCall s = false ∧ isNumeral s = false := by
  cases v with
  | text s =>
    simp only [isString, Bool.and_eq_true, bne_iff_ne, ne_eq, Bool.not_eq_true', List.isEmpty_eq_false_iff] at h
    exact ⟨s, rfl, h.1.1.1, h.1.1.2, h.1.2, h.2⟩
  | _ => cases h

namespace Sentence

/-- The keys that the strings of a row get are words. -/
theorem assigned_strings (d : Dialect) (table : Text) {values : List Assignment}
    (hv : ∀ a ∈ values, isWord a.column = true ∧ a.value.isString = true) :
    ∀ b ∈ ((insert d table values).assign .empty).1.slots,
      isWord b.key = true ∧ b.value.isString = true := by
  intro b hb
  constructor
  · refine Template.keys_assign (P := fun k => isWord k = true) (fun bs _ => bs.isWord_keyFor)
      _ .empty (fun c hc => ?_) b hb
    rw [slots_insert] at hc
    obtain ⟨a, ha, rfl⟩ := List.mem_map.mp hc
    exact (hv a ha).1
  · have hm : b.value ∈ ((insert d table values).assign .empty).1.slots.map Binding.value :=
      List.mem_map_of_mem hb
    rw [Template.values_assign, slots_insert, List.map_map] at hm
    obtain ⟨a, ha, e⟩ := List.mem_map.mp hm
    rw [← e]
    exact (hv a ha).2

end Sentence

namespace Dialect

theorem direct?_of_isString (d : Dialect) {v : Value} (h : v.isString = true) :
    d.direct? v = none := by
  obtain ⟨s, rfl, hn, he, hc, -⟩ := Value.exists_of_isString h
  simp only [direct?, Value.isNull, Value.isEmptyText, beq_iff_eq, hn, List.isEmpty_iff, he, hc]
  rfl

theorem dress_of_isString {v : Value} (h : v.isString = true) (s : Text) :
    dress v s = quoted s := by
  obtain ⟨t, rfl, -, -, -, hm⟩ := Value.exists_of_isString h
  rw [dress, Value.isNumber, hm]
  rfl

theorem body_filling (f : Flavor) {v : Value} (h : v.isString = true) :
    LiteralBody f (v.filling (ofFlavor f).cleaner?) := by
  obtain ⟨s, rfl, -, -, hc, -⟩ := Value.exists_of_isString h
  have hc' : isCall (Value.text s).raw = false := hc
  rw [filling_of_not_call (ofFlavor f) hc']
  exact (LiteralBody.escape f s).trim

/-- The text of a row of strings: bodies of literals in place of the values. -/
theorem insert_bodies (f : Flavor) {table : Text} {values : List Assignment}
    (ht : isWord table = true)
    (hv : ∀ a ∈ values, isWord a.column = true ∧ a.value.isString = true) (n : Nat) :
    ∃ bodies : List Text, bodies.length = values.length ∧ (∀ e ∈ bodies, LiteralBody f e) ∧
      ((ofFlavor f).complete n (Sentence.insert (ofFlavor f) (f.quote table) values)).sql =
        Sentence.insertion (f.quote table) (values.map fun a => f.quote a.column)
          (bodies.map quoted) := by
  let d := ofFlavor f
  have hhead := Sentence.colon_not_mem_insertHead d (not_mem_of_isWord ht rfl) fun a ha =>
    not_mem_of_isWord (hv a ha).1 rfl
  have hap : (Sentence.insert d (f.quote table) values).Apart (fun c => isWordChar c = false) True := by
    rw [Sentence.insert_eq]
    exact Template.apart_closedRow (show isWordChar ',' = false by rfl) hhead _
  have hl := Sentence.assigned_strings d (f.quote table) hv
  have hsql := complete_spell (d := d) hap (fun c hc b hb => not_mem_of_isWord (hl b hb).1 hc) n
  obtain ⟨l, hlen, hassign⟩ := Template.assign_closedRow
    (Sentence.insertHead (f.quote table) (values.map fun a => d.quote a.column))
    (values.map fun a => ⟨a.column, a.value⟩) .empty
  rw [← Sentence.insert_eq] at hassign
  rw [hassign, Template.slots_closedRow] at hl hsql
  -- The body of a string is what filling makes of its placeholder.
  refine ⟨l.map fun b => Bindings.fillAll d.cleaner? l b.placeholder, by simpa using hlen, ?_, ?_⟩
  · intro e he
    obtain ⟨b, hb, rfl⟩ := List.mem_map.mp he
    exact LiteralBody.fill (fun b' hb' => ⟨(hl b' hb').1, body_filling f (hl b' hb').2⟩)
      (LiteralBody.placeholder (hl b hb).1)
  · rw [hsql, Template.spell_closedRow, Sentence.insertion_eq, List.map_map]
    congr 2
    refine congrArg (Text.join ", ".toList) (List.map_congr_left fun b hb => ?_)
    rw [place, direct?_of_isString d (hl b hb).2, Option.getD_none, fill_dress,
      dress_of_isString (hl b hb).2]
    rfl

theorem compile_strings (f : Flavor) (begun : Nat) {table : Text} {values : List Assignment}
    (ht : isWord table = true) (hne : values ≠ [])
    (hv : ∀ a ∈ values, isWord a.column = true ∧ a.value.isString = true) :
    ∃ (st : Statement) (bodies : List Text),
      (ofFlavor f).compile begun (.insert table values) = (.ok st, begun + 1) ∧
      bodies.length = values.length ∧ (∀ e ∈ bodies, LiteralBody f e) ∧
      st.sql = Sentence.insertion (f.enclose table) (values.map fun a => f.enclose a.column)
        (bodies.map quoted) := by
  obtain ⟨bodies, hlen, hb, hsql⟩ := insert_bodies f ht hv (begun + 1)
  refine ⟨_, bodies, compile_ready (plan_insert (ofFlavor f) ht hne) begun, hlen, hb, hsql.trans ?_⟩
  have hq : (values.map fun a => f.quote a.column) = values.map fun a => f.enclose a.column :=
    List.map_congr_left fun a ha => quote_of_isWord f (hv a ha).1
  rw [quote_of_isWord f ht, hq]

/-! ## Two runs -/

theorem quoted_append (e s : Text) : quoted e ++ s = '\'' :: e ++ '\'' :: s := List.append_assoc _ _ _

/-- Outside of its literals a row has the same text for any strings. -/
theorem outside_row {f : Flavor} : ∀ {bodies : List Text}, (∀ e ∈ bodies, LiteralBody f e) →
    f.outside false (Text.join ", ".toList (bodies.map quoted) ++ [')']) =
      Text.join ", ".toList (bodies.map fun _ => quoted []) ++ [')']
  | [], _ => by cases f <;> rfl
  | [e], h => by
    have hc : f.outside false [')'] = [')'] := by cases f <;> rfl
    have hl := Flavor.outside_literal (h e (by simp)) (show ')' ≠ '\'' by decide) []
    rw [hc] at hl
    rw [List.map_singleton, List.map_singleton, Text.join, Text.join, List.intercalate_singleton,
      List.intercalate_singleton, quoted_append]
    exact hl
  | e :: e' :: es, h => by
    let rest := Text.join ", ".toList ((e' :: es).map quoted) ++ [')']
    have hl := Flavor.outside_literal (h e (by simp)) (show ',' ≠ '\'' by decide) (' ' :: rest)
    have hsep : f.outside false (',' :: ' ' :: rest) = ", ".toList ++ f.outside false rest :=
      Flavor.outside_append (s := ", ".toList) (by decide) rest
    have ih := outside_row fun x hx => h x (List.mem_cons_of_mem e hx)
    rw [hsep, ih] at hl
    simp only [List.map_cons, Text.join, List.intercalate_cons_cons, List.append_assoc] at hl ⊢
    rw [quoted_append]
    exact hl

theorem outside_insertion {f : Flavor} {table : Text} {columns bodies : List Text}
    (ht : '\'' ∉ table) (hc : ∀ c ∈ columns, '\'' ∉ c) (hb : ∀ e ∈ bodies, LiteralBody f e) :
    f.outside false (Sentence.insertion table columns (bodies.map quoted)) =
      Sentence.insertion table columns (bodies.map fun _ => quoted []) := by
  have hh := Sentence.not_mem_insertHead (by decide) ht hc
  rw [Sentence.insertion_eq, Flavor.outside_append hh, outside_row hb, Sentence.insertion_eq]

theorem quote_not_mem_enclose (f : Flavor) {s : Text} (h : isWord s = true) :
    '\'' ∉ f.enclose s := by
  intro hm
  rcases mem_enclose hm with e | hs
  · cases f <;> exact absurd e (by decide)
  · exact not_mem_of_isWord h rfl hs

/-- **Strings stay between their quotes.** A row of any strings, under words for names, is written
with the body of one literal for each. Another row under the same names has the same text outside
of its literals. -/
theorem insert_confined (f : Flavor) (begun : Nat) {table : Text} {values : List Assignment}
    (ht : isWord table = true) (hne : values ≠ [])
    (hv : ∀ a ∈ values, isWord a.column = true ∧ a.value.isString = true) :
    ∃ (st : Statement) (bodies : List Text),
      (ofFlavor f).compile begun (.insert table values) = (.ok st, begun + 1) ∧
      bodies.length = values.length ∧ (∀ e ∈ bodies, LiteralBody f e) ∧
      st.sql = Sentence.insertion (f.enclose table) (values.map fun a => f.enclose a.column)
        (bodies.map quoted) ∧
      ∀ (begun' : Nat) (values' : List Assignment),
        values'.map Assignment.column = values.map Assignment.column →
        (∀ a ∈ values', a.value.isString = true) →
        ∃ st', (ofFlavor f).compile begun' (.insert table values') = (.ok st', begun' + 1) ∧
          f.outside false st'.sql = f.outside false st.sql := by
  have hquote : ∀ c ∈ values.map fun a => f.enclose a.column, '\'' ∉ c := by
    intro c hc
    obtain ⟨a, ha, rfl⟩ := List.mem_map.mp hc
    exact quote_not_mem_enclose f (hv a ha).1
  obtain ⟨st, bodies, hst, hlen, hb, hsql⟩ := compile_strings f begun ht hne hv
  refine ⟨st, bodies, hst, hlen, hb, hsql, fun begun' values' hcols hs => ?_⟩
  have hmap : (values'.map fun a => f.enclose a.column) = values.map fun a => f.enclose a.column := by
    have := congrArg (List.map f.enclose) hcols
    rwa [List.map_map, List.map_map] at this
  have hcount : values'.length = values.length := by simpa using congrArg List.length hcols
  have hv' : ∀ a ∈ values', isWord a.column = true ∧ a.value.isString = true := by
    intro a ha
    have hc : a.column ∈ values'.map Assignment.column := List.mem_map_of_mem ha
    rw [hcols] at hc
    obtain ⟨b, hb, e⟩ := List.mem_map.mp hc
    exact ⟨e ▸ (hv b hb).1, hs a ha⟩
  have hne' : values' ≠ [] := List.ne_nil_of_length_pos (hcount ▸ List.length_pos_iff.mpr hne)
  obtain ⟨st', bodies', hst', hlen', hb', hsql'⟩ := compile_strings f begun' ht hne' hv'
  refine ⟨st', hst', ?_⟩
  rw [hmap] at hsql'
  rw [hsql, hsql', outside_insertion (quote_not_mem_enclose f ht) hquote hb,
    outside_insertion (quote_not_mem_enclose f ht) hquote hb', List.map_const', List.map_const',
    hlen, hlen', hcount]

/-- A string that would close its literal is filled into another one, which spells its placeholder. -/
theorem insert_confined_hostile :
    let values : List Assignment := [⟨"x".toList, .text ":a: or :a3:".toList⟩,
      ⟨"7".toList, .text ":x:".toList⟩, ⟨"a".toList, .text "'); DROP TABLE t; -- ".toList⟩,
      ⟨"a".toList, .text "\\".toList⟩]
    isWord "t".toList = true ∧ values ≠ [] ∧
      (∀ a ∈ values, isWord a.column = true ∧ a.value.isString = true) ∧
      ∃ (st : Statement) (bodies : List Text),
        (ofFlavor .mysql).compile 0 (.insert "t".toList values) = (.ok st, 1) ∧
        (∀ e ∈ bodies, LiteralBody .mysql e) ∧
        st.sql = Sentence.insertion "`t`".toList ["`x`".toList, "`7`".toList, "`a`".toList, "`a`".toList]
          (bodies.map quoted) ∧
        st.sql = ("INSERT INTO `t` (`x`, `7`, `a`, `a`) VALUES ('\\'); DROP TABLE t; -- or \\\\', " ++
          "':7:', '\\'); DROP TABLE t; --', '\\\\')").toList := by
  intro values
  have ht : isWord "t".toList = true := by decide
  have hne : values ≠ [] := List.cons_ne_nil _ _
  have hv : ∀ a ∈ values, isWord a.column = true ∧ a.value.isString = true := by decide
  obtain ⟨st, bodies, hst, -, hb, hsql, -⟩ := insert_confined .mysql 0 ht hne hv
  refine ⟨ht, hne, hv, st, bodies, hst, hb, hsql, ?_⟩
  have hrun := congrArg Prod.fst hst
  have hst' : (ofFlavor .mysql).complete 1
      (Sentence.insert (ofFlavor .mysql) "`t`".toList values) = st := Except.ok.inj hrun
  rw [← hst']
  decide

end Dialect

end SqlForge
