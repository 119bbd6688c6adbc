import SqlForge.Statement
import SqlForge.Proofs.Conditions

/-!
# Changed rows

`UPDATE` and `DELETE` draw the keys of assigned values, of conditions and of
the limit from one table. However these collide, each literal ends in its own
place: all clauses before the limit are rendered at once, and the limit comes
last, so that nothing is filled in behind it.
-/

namespace SqlForge

namespace Dialect

variable (d : Dialect)

/-! ## Texts with their literals -/

/-- The clause for a number of rows, given as it is written. -/
def limitClause : Option Text → List Text
  | some count => ["LIMIT ".toList ++ count]
  | none => []

def whereClause (cs : Conditions Condition) : List Text :=
  ["WHERE".toList, Text.join " AND ".toList ((cs.map d.conditionText).members id)]

def updateText (table : Text) (values : List Assignment) (cs : Conditions Condition)
    (limit : Option Text) : Text :=
  Text.join [' '] <|
    ["UPDATE".toList, d.quote table, "SET".toList,
      Text.join ", ".toList (values.map fun a => d.quote a.column ++ " = ".toList ++ d.lit a.value)] ++
    d.whereClause cs ++ limitClause limit

def deleteText (table : Text) (cs : Conditions Condition) (limit : Option Text) : Text :=
  Text.join [' '] <|
    ["DELETE FROM".toList, d.quote table] ++ d.whereClause cs ++ limitClause limit

variable {d}

/-! ## Plans of changes -/

theorem ready_of_compile {begun n : Nat} {c : Command} {st : Statement}
    (h : d.compile begun c = (.ok st, n)) :
    ∃ t, d.plan c = .ready t ∧ st = d.complete (begun + 1) t := by
  unfold compile at h
  split at h
  · cases h
  · cases h
  · rename_i t ht
    cases h
    exact ⟨t, ht, rfl⟩

theorem withRestriction_ready {write : Write} {cs : Conditions Condition}
    {next : List Template → Template} {t : Template}
    (h : d.withRestriction write cs next = .ready t) :
    ∃ ts, d.conditions cs = .ok ts ∧ ts ≠ [] ∧ t = next ts := by
  unfold withRestriction withConditions at h
  split at h
  · rename_i ts hts
    by_cases hn : ts = []
    · simp [hn] at h
    · simp [hn] at h
      exact ⟨ts, hts, hn, h.symm⟩
  · cases h

theorem update_ready {table : Text} {values : List Assignment} {cs : Conditions Condition}
    {limit : Option UInt64} {t : Template} (ht : isWord table = true)
    (h : d.plan (.update table values cs limit) = .ready t) :
    ∃ ts, d.conditions cs = .ok ts ∧ ts ≠ [] ∧
      t = Sentence.update d (d.quote table) values ts limit := by
  rw [plan, withTable, table?_of_isWord d.flavor ht] at h
  dsimp only at h
  split at h
  · cases h
  · exact withRestriction_ready h

theorem delete_ready {table : Text} {cs : Conditions Condition} {limit : Option UInt64}
    {t : Template} (ht : isName table = true) (h : d.plan (.delete table cs limit) = .ready t) :
    ∃ ts, d.conditions cs = .ok ts ∧ ts ≠ [] ∧ t = Sentence.delete (d.quote table) ts limit := by
  rw [plan, withTable, table?_of_isWord d.flavor (isWord_of_isName ht)] at h
  exact withRestriction_ready h

/-! ## Clauses -/

theorem slots_window (limit : Option UInt64) :
    (Clause.window (limit.map (none, ·))).flatMap Outline.slots =
      (limit.map fun m => (⟨"limit".toList, .unsigned m⟩ : Binding)).toList := by
  cases limit with
  | none => rfl
  | some m => rfl

theorem inline_window (limit : Option UInt64) :
    (Clause.window (limit.map (none, ·))).map (Template.inline d) =
      limitClause (limit.map fun m => d.lit (.unsigned m)) := by
  cases limit with
  | none => rfl
  | some m => simp [Clause.window, rowCount, Template.inline, Outline.spell, limitClause]

theorem apart_window (limit : Option UInt64) :
    ∀ t ∈ Clause.window (limit.map (none, ·)), t.Apart (fun c => isWordChar c = false) True := by
  intro t ht
  cases limit with
  | none => cases ht
  | some m =>
    cases List.mem_singleton.mp ht
    exact ⟨by decide, .inl trivial, trivial⟩

/-- The limit may have any literal, because it is the last value. -/
theorem settled_limit {vs : List Value} (h : ∀ v ∈ vs, d.Quiet v) (limit : Option UInt64) :
    d.Settled (vs ++ (limit.map Value.unsigned).toList) := by
  cases limit with
  | none => simpa using settled_of_quiet h
  | some m => exact settled_concat h rfl

section
variable {clauses : List Template} (h : ∀ t ∈ clauses, Template.Fit d t) (limit : Option UInt64)

theorem slots_clauses (clauses : List Template) :
    (Sentence.ofClauses (clauses ++ Clause.window (limit.map (none, ·)))).slots =
      clauses.flatMap Outline.slots ++ (limit.map fun m => ⟨"limit".toList, .unsigned m⟩).toList := by
  rw [Sentence.ofClauses, Template.slots_join, List.flatMap_append, slots_window]

include h

theorem apart_clauses :
    (Sentence.ofClauses (clauses ++ Clause.window (limit.map (none, ·)))).Apart
      (fun c => isWordChar c = false) True := by
  refine Template.apart_join (by decide) ⟨' ', by decide, by decide⟩ fun t ht => ?_
  rcases List.mem_append.mp ht with ht | ht
  · exact (h t ht).apart
  · exact apart_window limit t ht

theorem slots_of_fit : ∀ b ∈ clauses.flatMap Outline.slots, isName b.key = true ∧ d.Quiet b.value := by
  intro b hb
  obtain ⟨t, ht, hb⟩ := List.mem_flatMap.mp hb
  exact (h t ht).slots b hb

/-- Clauses that can be rendered at once still can with a limit behind them. -/
theorem complete_clauses (n : Nat) :
    (d.complete n (Sentence.ofClauses (clauses ++ Clause.window (limit.map (none, ·))))).sql =
      Text.join [' '] (clauses.map (Template.inline d) ++
        limitClause (limit.map fun m => d.lit (.unsigned m))) := by
  have hfit := slots_of_fit h
  rw [complete_sql (apart_clauses h limit)]
  · rw [Template.inline, Sentence.ofClauses, Template.spell_join, List.map_append]
    exact congrArg (fun w => Text.join [' '] (_ ++ w)) (inline_window limit)
  · intro b hb
    rw [slots_clauses] at hb
    rcases List.mem_append.mp hb with hb | hb
    · exact (hfit b hb).1
    · obtain ⟨m, -, rfl⟩ := Option.map_eq_some_iff.mp (Option.mem_toList.mp hb)
      change isName "limit".toList = true
      decide
  · rw [slots_clauses, List.map_append]
    have hq : ∀ v ∈ (clauses.flatMap Outline.slots).map Binding.value, d.Quiet v := by
      intro v hv
      obtain ⟨b, hb, rfl⟩ := List.mem_map.mp hv
      exact (hfit b hb).2
    have hs := settled_limit hq limit
    cases limit <;> exact hs

end

theorem fit_text {keyword : Text} {s? : Option Text} (hk : ':' ∉ keyword)
    (hs : ∀ s ∈ s?, ':' ∉ s) : ∀ t ∈ Clause.text keyword s?, Template.Fit d t := by
  intro t h
  cases s? with
  | none => cases h
  | some s =>
    simp only [Clause.text, List.mem_cons, List.not_mem_nil, or_false] at h
    rcases h with rfl | rfl
    · exact .ofText hk
    · exact .ofText (hs s rfl)

theorem fit_table {keyword table : Text} (hk : ':' ∉ keyword) (ht : isName table = true) :
    ∀ t ∈ Clause.text keyword (some (d.quote table)), Template.Fit d t := by
  apply fit_text hk
  rintro s ⟨⟩
  exact colon_not_mem_quote d.flavor (colon_not_mem_of_isName ht)

theorem fit_restriction {ts : List Template} (h : ∀ t ∈ ts, Template.Fit d t) :
    ∀ t ∈ Clause.restriction ts, Template.Fit d t := by
  intro t ht
  unfold Clause.restriction at ht
  split at ht
  · cases ht
  · simp only [List.mem_cons, List.not_mem_nil, or_false] at ht
    rcases ht with rfl | rfl
    · exact .ofText (by decide)
    · exact .join (by decide) ⟨' ', by decide, rfl⟩ h

theorem inline_restriction {cs : Conditions Condition} {ts : List Template} (hn : ts ≠ [])
    (h : ts.map (Template.inline d) = (cs.map d.conditionText).members id) :
    (Clause.restriction ts).map (Template.inline d) = d.whereClause cs := by
  have he : ts.isEmpty = false := by simpa using hn
  have hj := Template.spell_join (fun b => d.lit b.value) Connective.and.spaced ts
  rw [Clause.restriction, he, whereClause, ← h]
  exact congrArg (["WHERE".toList, ·]) hj

theorem fit_set {values : List Assignment}
    (hv : ∀ a ∈ values, isName a.column = true ∧ d.Quiet a.value) :
    Template.Fit d (Template.join ", ".toList (values.map (·.set d))) := by
  apply Template.Fit.join (by decide) ⟨' ', by decide, rfl⟩
  intro t ht
  obtain ⟨a, ha, rfl⟩ := List.mem_map.mp ht
  obtain ⟨hn, hq⟩ := hv a ha
  have hc : ':' ∉ d.quote a.column := colon_not_mem_quote d.flavor (colon_not_mem_of_isName hn)
  exact .slot (by simp [hc]) hn hq

theorem inline_set (values : List Assignment) :
    (Template.join ", ".toList (values.map (·.set d))).inline d =
      Text.join ", ".toList (values.map fun a => d.quote a.column ++ " = ".toList ++ d.lit a.value) := by
  rw [Template.inline, Template.spell_join, List.map_map]
  congr 1
  apply List.map_congr_left
  intro a _
  simp [Assignment.set, Outline.spell]

/-! ## Both ways agree -/

theorem update_sql {begun n : Nat} {table : Text} {values : List Assignment}
    {cs : Conditions Condition} {limit : Option UInt64} {st : Statement} (ht : isName table = true)
    (hcs : ∀ c ∈ cs.leaves, d.Suits c)
    (hv : ∀ a ∈ values, isName a.column = true ∧ d.Quiet a.value)
    (h : d.compile begun (.update table values cs limit) = (.ok st, n)) :
    st.sql = d.updateText table values cs (limit.map fun m => d.lit (.unsigned m)) := by
  obtain ⟨t, hplan, rfl⟩ := ready_of_compile h
  obtain ⟨ts, hts, hne, rfl⟩ := update_ready (isWord_of_isName ht) hplan
  obtain ⟨hinline, hfit⟩ := d.conditions_ok (fun c hc => d.word_of_suits (hcs c hc)) hts
  have hset : ∀ t ∈ [Template.ofText "SET".toList, Template.join ", ".toList (values.map (·.set d))],
      Template.Fit d t := by
    intro t ht
    simp only [List.mem_cons, List.not_mem_nil, or_false] at ht
    rcases ht with rfl | rfl
    · exact .ofText (by decide)
    · exact fit_set hv
  rw [Sentence.update, complete_clauses]
  · rw [List.map_append, List.map_append, inline_restriction hne hinline, updateText, ← inline_set]
    simp [Clause.text, Template.inline, Template.ofText, Outline.spell]
  · intro t h
    rcases List.mem_append.mp h with h | h
    · rcases List.mem_append.mp h with h | h
      · exact fit_table (by decide) ht t h
      · exact hset t h
    · exact fit_restriction hfit t h

theorem delete_sql {begun n : Nat} {table : Text} {cs : Conditions Condition}
    {limit : Option UInt64} {st : Statement} (ht : isName table = true)
    (hcs : ∀ c ∈ cs.leaves, d.Suits c) (h : d.compile begun (.delete table cs limit) = (.ok st, n)) :
    st.sql = d.deleteText table cs (limit.map fun m => d.lit (.unsigned m)) := by
  obtain ⟨t, hplan, rfl⟩ := ready_of_compile h
  obtain ⟨ts, hts, hne, rfl⟩ := delete_ready ht hplan
  obtain ⟨hinline, hfit⟩ := d.conditions_ok (fun c hc => d.word_of_suits (hcs c hc)) hts
  rw [Sentence.delete, complete_clauses]
  · rw [List.map_append, inline_restriction hne hinline, deleteText]
    simp [Clause.text, Template.inline, Template.ofText, Outline.spell]
  · intro t h
    rcases List.mem_append.mp h with h | h
    · exact fit_table (by decide) ht t h
    · exact fit_restriction hfit t h

theorem lit_unsigned {m : UInt64}
    (h : d.cleans = true → d.escape (Text.natural m.toNat) = Text.natural m.toNat) :
    d.lit (.unsigned m) = Text.natural m.toNat := by
  have hpad : ∀ c ∈ Text.natural m.toNat, Text.isPadding c = false := by
    intro c hc
    exact isPadding_of_isWordChar (isWordChar_of_isDigit (Text.isDigit_of_mem_natural hc))
  have hb : (if d.cleans then d.escape (Text.natural m.toNat) else Text.natural m.toNat) =
      Text.natural m.toNat := by
    by_cases hc : d.cleans = true
    · rw [if_pos hc, h hc]
    · rw [if_neg hc]
  rw [lit, body, hb, Text.trim_of_none hpad]

/-- **Changes are rendered at once.** Under names, and with literals that spell no placeholder of a
name, each assigned and each compared value stands as its literal in its own place, and so does
the limit. Its literal is its digits, unless the dialect escapes digits. -/
theorem change_sql (d : Dialect) (begun : Nat) {table : Text} {cs : Conditions Condition}
    (limit : Option UInt64) (ht : isName table = true) (hcs : ∀ c ∈ cs.leaves, d.Suits c) :
    (∀ values st n, (∀ a ∈ values, isName a.column = true ∧ d.Quiet a.value) →
      d.compile begun (.update table values cs limit) = (.ok st, n) →
      st.sql = d.updateText table values cs (limit.map fun m => d.lit (.unsigned m))) ∧
    (∀ st n, d.compile begun (.delete table cs limit) = (.ok st, n) →
      st.sql = d.deleteText table cs (limit.map fun m => d.lit (.unsigned m))) ∧
    ∀ m, (d.cleans = true → d.escape (Text.natural m.toNat) = Text.natural m.toNat) →
      d.lit (.unsigned m) = Text.natural m.toNat := by
  refine ⟨?_, ?_, ?_⟩
  · intro values st n hv h
    exact update_sql ht hcs hv h
  · intro st n h
    exact delete_sql ht hcs h
  · intro m h
    exact lit_unsigned h

/-- Columns that have the names of keys for conditions and for the limit. -/
theorem change_sql_colliding :
    let d : Dialect := .ofFlavor .mysql
    let values : List Assignment := [⟨"limit".toList, .signed 1⟩,
      ⟨"where_x".toList, .text "it's 8:30".toList⟩, ⟨"x1".toList, .null⟩]
    let cs : Conditions Condition := .leaf ⟨"x".toList, .one (.text "y".toList)⟩ <|
      .group .or (.leaf ⟨"x".toList, .many [.signed 1, .bool true]⟩ <|
        .leaf ⟨"limit >=".toList, .one (.unsigned 3)⟩ .nil) .nil
    (∀ c ∈ cs.leaves, d.Suits c) ∧ (∀ a ∈ values, isName a.column = true ∧ d.Quiet a.value) ∧
      ∃ st, d.compile 0 (.update "t".toList values cs (some 5)) = (.ok st, 1) ∧
        st.sql = d.updateText "t".toList values cs (some "5".toList) ∧
        st.sql = ("UPDATE `t` SET `limit` = 1, `where_x` = 'it\\'s 8:30', `x1` = NULL " ++
          "WHERE `x` = 'y' AND (`x` IN (1, TRUE) OR `limit` >= 3) LIMIT 5").toList := by
  intro d values cs
  have ht : isName "t".toList = true := by decide
  have hcs : ∀ c ∈ cs.leaves, d.Suits c := by decide
  have hv : ∀ a ∈ values, isName a.column = true ∧ d.Quiet a.value := by decide
  obtain ⟨hupdate, -, hdigits⟩ := change_sql d 0 (some 5) ht hcs
  have hrun : d.compile 0 (.update "t".toList values cs (some 5)) = (.ok _, 1) := rfl
  have hlimit : d.lit (.unsigned 5) = "5".toList := hdigits 5 fun _ => by decide
  have hsql := hupdate values _ 1 hv hrun
  rw [Option.map_some, hlimit] at hsql
  exact ⟨hcs, hv, _, hrun, hsql, hsql.trans (by decide +kernel)⟩

/-- A dialect that escapes digits shows that the limit is escaped like any other value. -/
theorem limit_escaped :
    let d : Dialect := ⟨.mysql, fun s => '<' :: s ++ ['>'], true⟩
    let values : List Assignment := [⟨"a".toList, .signed 1⟩]
    let cs : Conditions Condition := .leaf ⟨"b".toList, .one (.signed 2)⟩ .nil
    isName "t".toList = true ∧ (∀ c ∈ cs.leaves, d.Suits c) ∧
      (∀ a ∈ values, isName a.column = true ∧ d.Quiet a.value) ∧
      ∃ st, d.compile 0 (.update "t".toList values cs (some 3)) = (.ok st, 1) ∧
        st.sql ≠ d.updateText "t".toList values cs (some (Text.natural 3)) := by
  intro d values cs
  refine ⟨by decide, by decide, by decide, _, rfl, ?_⟩
  decide

end Dialect

end SqlForge
