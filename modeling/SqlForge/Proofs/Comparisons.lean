import SqlForge.Proofs.Numerals
import SqlForge.Proofs.Refusals

/-!
# Comparisons with one value

What becomes of a value that stands alone is asked in a fixed order, and first of all whether its
text looks like a column. A numeral may look like one, namely if its point stands between digits, and
then it is compared as a column here, though it is a number in a list or in an assignment. A null
test ignores its value for the same reason only as long as that does not look like a column.
-/

namespace SqlForge

/-! ## Numerals that look like columns -/

theorem isWord_of_digits {ds : Text} (h : ∀ c ∈ ds, c.isDigit = true) : isWord ds = true ↔ ds ≠ [] := by
  rw [isWord_iff]
  exact and_iff_left fun c hc => isWordChar_of_isDigit (h c hc)

namespace Numeral

/-- The point stands between digits, or between digits and an exponent, and there is no sign. -/
structure Qualified (n : Numeral) : Prop where
  sign : n.sign = none
  whole : n.whole ≠ []
  fraction : ∃ ds, n.fraction = some ds ∧ (ds ≠ [] ∨ n.exponent ≠ none)
  exponent : ∀ e ∈ n.exponent, e.sign = none

theorem isWordChar_of_sign {c : Char} (h : c = '+' ∨ c = '-') : isWordChar c = false := by
  rcases h with rfl | rfl
  · decide
  · decide

theorem Proper.isWord_front {n : Numeral} (hn : n.Proper) :
    isWord (n.sign.toList ++ n.whole) = true ↔ n.sign = none ∧ n.whole ≠ [] := by
  cases hs : n.sign with
  | none => simpa using isWord_of_digits hn.whole
  | some c => simp [isWord, isWordChar_of_sign (hn.sign c hs)]

theorem Proper.isWord_back {n : Numeral} (hn : n.Proper) {ds : Text} (hds : n.fraction = some ds) :
    isWord (ds ++ n.exponent.elim [] Exponent.text) = true ↔
      (ds ≠ [] ∨ n.exponent ≠ none) ∧ ∀ e ∈ n.exponent, e.sign = none := by
  have hdigits := hn.fraction ds hds
  cases he : n.exponent with
  | none => simpa using isWord_of_digits hdigits
  | some e =>
    obtain ⟨hmark, hsign, -, hexponent⟩ := hn.exponent e he
    have hword : ∀ c ∈ ds ++ e.mark :: e.digits, isWordChar c = true := by
      intro c hc
      simp only [List.mem_append, List.mem_cons] at hc
      rcases hc with hc | rfl | hc
      · exact isWordChar_of_isDigit (hdigits c hc)
      · exact isWordChar_of_mark hmark
      · exact isWordChar_of_isDigit (hexponent c hc)
    cases hs : e.sign with
    | none => simpa [Exponent.text, hs, isWord_iff] using hword
    | some c => simp [Exponent.text, hs, isWord, isWordChar_of_sign (hsign c hs)]

theorem Proper.dot_not_mem_front {n : Numeral} (hn : n.Proper) : '.' ∉ n.sign.toList ++ n.whole := by
  intro h
  rcases List.mem_append.mp h with h | h
  · exact absurd (hn.sign '.' (Option.mem_toList.mp h)) (by decide)
  · exact absurd (hn.whole '.' h) (by decide)

theorem Proper.dot_not_mem_exponent {n : Numeral} (hn : n.Proper) :
    '.' ∉ n.exponent.elim [] Exponent.text := by
  cases he : n.exponent with
  | none => simp
  | some e =>
    obtain ⟨hmark, hsign, -, hdigits⟩ := hn.exponent e he
    simp only [Option.elim_some, Exponent.text, List.mem_cons, List.mem_append, Option.mem_toList]
    rintro (h | h | h)
    · rw [← h] at hmark
      exact absurd hmark (by decide)
    · exact absurd (hsign '.' h) (by decide)
    · exact absurd (hdigits '.' h) (by decide)

theorem Proper.isColumnReference_iff {n : Numeral} (hn : n.Proper) :
    isColumnReference n.text = true ↔ n.Qualified := by
  cases hf : n.fraction with
  | some ds =>
    have hcut : Text.cut? '.' n.text =
        some (n.sign.toList ++ n.whole, ds ++ n.exponent.elim [] Exponent.text) := by
      have := Text.cut?_append hn.dot_not_mem_front (ds ++ n.exponent.elim [] Exponent.text)
      simpa [text, hf] using this
    rw [isColumnReference, hcut]
    simp only [Bool.and_eq_true, hn.isWord_front, hn.isWord_back hf]
    constructor
    · rintro ⟨⟨hs, hw⟩, hd, he⟩
      exact ⟨hs, hw, ⟨ds, hf, hd⟩, he⟩
    · rintro ⟨hs, hw, ⟨ds', hf', hd⟩, he⟩
      rw [hf] at hf'
      cases hf'
      exact ⟨⟨hs, hw⟩, hd, he⟩
  | none =>
    -- a column would bring in a point
    have hdot : '.' ∉ n.text := by
      rw [text, hf, ← List.append_assoc, List.mem_append]
      exact fun h => h.elim hn.dot_not_mem_front hn.dot_not_mem_exponent
    constructor
    · intro h
      obtain ⟨table, column, e, -⟩ := SqlForge.isColumnReference_iff.mp h
      exact absurd (by simp [e]) hdot
    · intro h
      obtain ⟨ds, hf', -⟩ := h.fraction
      rw [hf] at hf'
      cases hf'

end Numeral

/-- Of the texts that count as numbers, those look like columns that have no blanks in front and whose
point stands between digits. -/
theorem isColumnReference_iff_of_isNumeral {s : Text} (hs : isNumeral s = true) :
    isColumnReference s = true ↔ ∃ n, Numeral.read? s = some n ∧ n.Qualified := by
  constructor
  · intro h
    obtain ⟨table, column, e, ht, -⟩ := isColumnReference_iff.mp h
    obtain ⟨c, table, rfl⟩ := List.exists_cons_of_ne_nil (ne_nil_of_isWord ht)
    have hc := isBlank_of_isWordChar (isWordChar_of_mem ht List.mem_cons_self)
    have hstart : Text.trimStart Text.isBlank s = s := by
      apply Text.trimStart_of_head?
      rw [e]
      intro x hx
      cases hx
      exact hc
    obtain ⟨n, hn, hs⟩ := isNumeral_iff.mp hs
    rw [hstart] at hs
    rw [hs, hn.isColumnReference_iff] at h
    exact ⟨n, Numeral.read?_eq_some_iff.mpr ⟨hs, hn⟩, h⟩
  · rintro ⟨n, hread, hq⟩
    obtain ⟨rfl, hn⟩ := Numeral.read?_eq_some_iff.mp hread
    exact hn.isColumnReference_iff.mpr hq

theorem Value.columnReference?_text (s : Text) :
    (Value.text s).columnReference? = if isColumnReference s then some s else none := rfl

/-! ## What a tree deals out -/

/-- The column of a condition with its operator, as they stand in front of a value. -/
def Dialect.compared (d : Dialect) (c : Condition) : Text :=
  d.quote (Operator.ofKey c.key).1 ++ ' ' :: (Operator.ofKey c.key).2.keyword

namespace Draft

variable {d : Dialect} {w w' : Draft} {cs : Conditions Condition} {text : Text}

/-- `owned` deals out to the leaves of `cs` what `w'` has gained, and `text` is written with it. -/
structure Deals (d : Dialect) (w w' : Draft) (cs : Conditions Condition) (text : Text)
    (owned : Conditions (Condition × List Binding)) : Prop where
  leaves : owned.map Prod.fst = cs
  text : text = Text.join Connective.and.spaced ((owned.map fun p => d.fragment p.1 p.2).members id)
  gains : w.bindings.Gains (owned.leaves.flatMap Prod.snd) w'.bindings
  owns : ∀ p ∈ owned.leaves, Owns p.1 p.2

theorem exists_deals (h : ∀ c ∈ cs.leaves, c.connective? = none) :
    ∃ text w' owned, w.restrict d cs = (.ok text, w') ∧ Deals d w w' cs text owned := by
  obtain ⟨text, w', hok⟩ := restrict_of_no_connective (d := d) (w := w) h
  obtain ⟨written, hrun, ht⟩ := restrict_ok hok
  obtain ⟨owned, hcs, rfl, hg, ho⟩ := traverse_owned hrun
  exact ⟨text, w', owned, hok, hcs, ht, hg, ho⟩

theorem Deals.get? {owned : Conditions (Condition × List Binding)} (h : Deals d w w' cs text owned)
    {p : Condition × List Binding} (hp : p ∈ owned.leaves) :
    ∀ b ∈ p.2, w'.bindings.get? b.key = some b.value := fun b hb =>
  h.gains.get?.2 b (List.mem_flatMap.mpr ⟨p, hp, hb⟩)

section
variable {c : Condition} {v : Value} {own : List Binding} (ho : Owns c own) (hv : c.comparand = .one v)
include ho hv

/-- A value that names a column is bound by no operator. -/
theorem Owns.column {other : Text} (hr : v.columnReference? = some other) :
    own = [] ∧ d.fragment c own = d.compared c ++ ' ' :: d.quote other := by
  have hnil : own = [] := by
    have := ho.values
    simpa [Condition.values, hv, hr] using this
  exact ⟨hnil, by simp [Dialect.fragment, Dialect.compared, hv, hr]⟩

theorem Owns.value (hop : (Operator.ofKey c.key).2.testsNull = false)
    (hr : v.columnReference? = none) :
    ∃ key, own = [⟨key, v⟩] ∧ d.fragment c own = d.compared c ++ ' ' :: d.place v key := by
  have hvalues := ho.values
  simp only [Condition.values, hv, hr, hop, and_self, if_true] at hvalues
  obtain ⟨b, rfl, hb⟩ := List.map_eq_singleton_iff.mp hvalues
  subst hb
  exact ⟨b.key, rfl, by simp [Dialect.fragment, Dialect.compared, hv, hr]⟩

end

/-! ## Numerals -/

/-- **A numeral is bound, unless it looks like a column.** Wherever it stands alone in a tree of
conditions, a numeral adds itself to the bindings and leaves its placeholder bare, as it does in a
list and in an assignment. Only if its point stands between digits it is compared as a column. -/
theorem numerals_compared (d : Dialect) (w : Draft) {cs : Conditions Condition}
    (hcs : ∀ c ∈ cs.leaves, c.connective? = none) :
    ∃ text w' owned, w.restrict d cs = (.ok text, w') ∧ Deals d w w' cs text owned ∧
      ∀ s, isNumeral s = true →
        (∀ p ∈ owned.leaves, p.1.comparand = .one (.text s) →
          (Operator.ofKey p.1.key).2.testsNull = false → isColumnReference s = false →
          ∃ key, p.2 = [⟨key, .text s⟩] ∧ w'.bindings.get? key = some (.text s) ∧
            d.fragment p.1 p.2 = d.compared p.1 ++ ' ' :: placeholder key) ∧
        (∀ p ∈ owned.leaves, ∀ b ∈ p.2, b.value = .text s →
          d.place b.value b.key = placeholder b.key) ∧
        (∀ column bs, ((⟨column, .text s⟩ : Assignment).set d).write d bs =
          (d.quote column ++ " = ".toList ++ placeholder (bs.keyFor column),
            (bs.bind column (.text s)).2)) ∧
        (isColumnReference s = true ↔ ∃ n, Numeral.read? s = some n ∧ n.Qualified) ∧
        ∀ p ∈ owned.leaves, p.1.comparand = .one (.text s) → isColumnReference s = true →
          p.2 = [] ∧ d.fragment p.1 p.2 = d.compared p.1 ++ ' ' :: d.quote s := by
  obtain ⟨text, w', owned, hok, hdeals⟩ := exists_deals (d := d) (w := w) hcs
  refine ⟨text, w', owned, hok, hdeals, fun s hs => ⟨?_, ?_, ?_, ?_, ?_⟩⟩
  · intro p hp hv hop hr
    have hnone : (Value.text s).columnReference? = none := by simp [Value.columnReference?_text, hr]
    obtain ⟨key, hown, hf⟩ := (hdeals.owns p hp).value (d := d) hv hop hnone
    rw [d.place_of_isNumeral hs] at hf
    exact ⟨key, hown, hdeals.get? hp ⟨key, .text s⟩ (by simp [hown]), hf⟩
  · intro p _ b _ hb
    rw [hb, d.place_of_isNumeral hs]
  · intro column bs
    simp [Assignment.set, Template.write, Bindings.bind, d.place_of_isNumeral hs]
  · exact isColumnReference_iff_of_isNumeral hs
  · intro p hp hv hr
    exact (hdeals.owns p hp).column hv (by simp [Value.columnReference?_text, hr])

/-- A numeral with a sign, one in a list, and one that looks like a column. -/
theorem numerals_compared_beside :
    let d : Dialect := .ofFlavor .postgres
    let w := ((start 1).bind "where_a".toList (.text "before".toList)).2
    let c : Condition := ⟨"a >=".toList, .one (.text " -1.5e3".toList)⟩
    let cs : Conditions Condition := .group .or (.leaf c <|
      .leaf ⟨"a".toList, .many [.text "x".toList, .text "1.5".toList]⟩ .nil) <|
      .leaf ⟨"a".toList, .one (.text "1.5".toList)⟩ .nil
    (∀ c ∈ cs.leaves, c.connective? = none) ∧ isNumeral " -1.5e3".toList = true ∧
      ∃ text w', w.restrict d cs = (.ok text, w') ∧
        text = ("(\"a\" >= :where_a1: OR \"a\" IN (':where_0a:', :where_1a:)) AND " ++
          "\"a\" = \"1\".\"5\"").toList ∧
        ∃ key own, own = [⟨key, .text " -1.5e3".toList⟩] ∧
          w'.bindings.get? key = some (.text " -1.5e3".toList) ∧
          d.fragment c own = "\"a\" >= ".toList ++ placeholder key := by
  intro d w c cs
  have hcs : ∀ c ∈ cs.leaves, c.connective? = none := by decide +kernel
  have hs : isNumeral " -1.5e3".toList = true := by decide
  obtain ⟨text, w', owned, hok, hdeals, hall⟩ := numerals_compared d w hcs
  have hrun : w.restrict d cs = (.ok _, _) := rfl
  obtain ⟨htext, -⟩ := Prod.mk.inj (hrun.symm.trans hok)
  have hc : c ∈ owned.leaves.map Prod.fst := by
    rw [← Conditions.leaves_map, hdeals.leaves]
    exact List.mem_cons_self
  obtain ⟨p, hp, hpc⟩ := List.mem_map.mp hc
  obtain ⟨key, hown, hget, hf⟩ := (hall _ hs).1 p hp (by rw [hpc]) (by rw [hpc]; decide) (by decide)
  rw [hpc] at hf
  have hleft : d.compared c = "\"a\" >=".toList := by decide
  rw [hleft] at hf
  exact ⟨hcs, hs, text, w', hok, (Except.ok.inj htext).symm.trans (by decide +kernel), key, p.2, hown,
    hget, hf⟩

/-- The same text is a column where it stands alone, and a number in a list. -/
theorem numeral_as_column :
    let d : Dialect := .ofFlavor .mysql
    let v : Value := .text "1.5".toList
    isNumeral "1.5".toList = true ∧
      (∃ st, d.compile 0 (.delete "t".toList (.leaf ⟨"price".toList, .one v⟩ .nil) none) = (.ok st, 1) ∧
        st.sql = "DELETE FROM `t` WHERE `price` = `1`.`5`".toList ∧ st.bindings = .empty) ∧
      ∃ st, d.compile 0 (.delete "t".toList (.leaf ⟨"price".toList, .many [v]⟩ .nil) none) =
        (.ok st, 1) ∧ st.sql = "DELETE FROM `t` WHERE `price` IN (1.5)".toList :=
  ⟨by decide, ⟨_, rfl, by decide +kernel, rfl⟩, _, rfl, by decide +kernel⟩

/-! ## Null tests -/

end Draft

/-- A null test has a value that does not look like a column replaced by nothing. -/
def Condition.unvalued (c : Condition) : Condition :=
  match c.comparand with
  | .one v =>
    if (Operator.ofKey c.key).2.testsNull = true ∧ v.columnReference? = none then ⟨c.key, .one .null⟩
    else c
  | .many _ => c

theorem Conditions.traverse_map {m : Type → Type} [Monad m] {α β γ : Type} (f : β → m γ) (g : α → β) :
    ∀ cs : Conditions α, (cs.map g).traverse f = cs.traverse fun a => f (g a)
  | nil => rfl
  | leaf a rest => by
    rw [map, traverse, traverse, traverse_map f g rest]
  | group word inner rest => by
    rw [map, traverse, traverse, traverse_map f g inner, traverse_map f g rest]

namespace Dialect

variable (d : Dialect) {c : Condition} {v : Value}

theorem comparison_testsNull (column : Text) {op : Operator} (hop : op.testsNull = true) :
    d.comparison column op v = .ofText (d.quote column ++ ' ' :: op.keyword ++
      v.columnReference?.elim [] fun other => ' ' :: d.quote other) := by
  unfold comparison
  cases v.columnReference? with
  | some other => simp
  | none => simp [hop]

theorem condition_unvalued (c : Condition) : d.condition c.unvalued = d.condition c := by
  unfold Condition.unvalued
  split
  · rename_i v hv
    split
    · rename_i h
      have hcmp := d.comparison_testsNull (v := v) (Operator.ofKey c.key).1 h.1
      have hnull := d.comparison_testsNull (v := .null) (Operator.ofKey c.key).1 h.1
      rw [h.2] at hcmp
      simp only [condition, hv]
      rw [hcmp, hnull]
      rfl
    · rfl
  · rfl

end Dialect

namespace Draft

theorem condition_unvalued (d : Dialect) (c : Condition) : condition d c.unvalued = condition d c := by
  unfold condition
  rw [d.condition_unvalued]

/-- **A null test ignores its value, unless that looks like a column.** It is written as its column and
its operator and binds nothing. In a tree of conditions the values of the null tests can be left
out. Behind a value that looks like a column that column is written all the same. -/
theorem null_tests_unvalued (d : Dialect) :
    (∀ (c : Condition) (v : Value) (bs : Bindings), c.comparand = .one v →
      (Operator.ofKey c.key).2.testsNull = true → c.connective? = none →
      (v.columnReference? = none → (condition d c).run bs = (.ok (d.compared c), bs)) ∧
      ∀ other, v.columnReference? = some other →
        (condition d c).run bs = (.ok (d.compared c ++ ' ' :: d.quote other), bs)) ∧
    ∀ (w : Draft) (cs : Conditions Condition),
      w.restrict d (cs.map Condition.unvalued) = w.restrict d cs := by
  constructor
  · intro c v bs hv hop hc
    have hrun := Conditions.run_condition d c bs
    rw [Conditions.condition_eq hc, hv] at hrun
    simp only [d.comparison_testsNull _ hop] at hrun
    refine ⟨fun hr => ?_, fun other hr => ?_⟩
    · rw [hrun, hr]
      simp [Template.ofText, Template.write, Dialect.compared]
    · rw [hrun, hr]
      simp [Template.ofText, Template.write, Dialect.compared]
  · intro w cs
    have hcondition : (fun c : Condition => condition d c.unvalued) = condition d :=
      funext (condition_unvalued d)
    unfold restrict
    rw [Conditions.traverse_map, hcondition]

/-- Any spelling of the operator, and values that would be bound, called or quoted elsewhere. -/
theorem null_tests_unvalued_spelled :
    let d : Dialect := .ofFlavor .sqlite
    let c : Condition := ⟨" t.a \t iS nOt nULL ".toList, .one (.text "NOW()); --".toList)⟩
    let cs : Conditions Condition := .leaf ⟨"b".toList, .one (.signed 1)⟩ <|
      .group .or (.leaf c <| .leaf ⟨"b is null".toList, .one (.bool true)⟩ .nil) .nil
    (∀ bs, (condition d c).run bs = (.ok "\"t\".\"a\" IS NOT NULL".toList, bs)) ∧
      cs.map Condition.unvalued = .leaf ⟨"b".toList, .one (.signed 1)⟩ (.group .or
        (.leaf ⟨c.key, .one .null⟩ <| .leaf ⟨"b is null".toList, .one .null⟩ .nil) .nil) ∧
      ∀ w : Draft, w.restrict d (cs.map Condition.unvalued) = w.restrict d cs := by
  intro d c cs
  obtain ⟨hleaf, htree⟩ := null_tests_unvalued d
  have hcompared : d.compared c = "\"t\".\"a\" IS NOT NULL".toList := by decide +kernel
  refine ⟨fun bs => ?_, by decide +kernel, fun w => htree w cs⟩
  rw [← hcompared]
  exact (hleaf c _ bs rfl (by decide +kernel) (by decide +kernel)).1 (by decide)

/-- A null test with a value that looks like a column. -/
theorem null_test_with_column :
    let d : Dialect := .ofFlavor .mysql
    ∃ st, d.compile 0 (.delete "t".toList
      (.leaf ⟨"a IS NULL".toList, .one (.text "b.c".toList)⟩ .nil) none) = (.ok st, 1) ∧
      st.sql = "DELETE FROM `t` WHERE `a` IS NULL `b`.`c`".toList :=
  ⟨_, rfl, by decide +kernel⟩

end Draft

end SqlForge
