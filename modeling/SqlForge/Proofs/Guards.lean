import SqlForge.Proofs.Insertion
import SqlForge.Proofs.Meaning

/-!
# Guarded changes

An `UPDATE` or `DELETE` is refused for one of four reasons, which are looked for
in a fixed order, and for no other. One that is not refused has a `WHERE` clause
to which every leaf of its conditions has contributed a fragment, so it cannot
reach all rows of a table because a tree of conditions turned out to be empty.
-/

namespace SqlForge

/-! ## Connectives in the place of columns -/

/-- The connective that stands where a column is expected. -/
def Condition.connective? (c : Condition) : Option Text :=
  let column := (Operator.ofKey c.key).1
  if column = Connective.and.keyword ∨ column = Connective.or.keyword then some column else none

namespace Conditions

/-- The first such connective, in the order of the leaves. -/
def connective? (cs : Conditions Condition) : Option Text := cs.leaves.findSome? Condition.connective?

variable {d : Dialect}

theorem condition_of_connective {c : Condition} {word : Text} (h : c.connective? = some word) :
    d.condition c = .error (.connectiveAsColumn word) := by
  simp only [Condition.connective?, Option.ite_none_right_eq_some, Option.some.injEq] at h
  obtain ⟨hw, rfl⟩ := h
  simp only [Dialect.condition, hw, if_true]

theorem condition_eq {c : Condition} (h : c.connective? = none) :
    d.condition c = .ok (match c.comparand with
      | .one v => d.comparison (Operator.ofKey c.key).1 (Operator.ofKey c.key).2 v
      | .many vs => d.membership (Operator.ofKey c.key).1 (Operator.ofKey c.key).2 vs) := by
  have hw : ¬ ((Operator.ofKey c.key).1 = Connective.and.keyword ∨
      (Operator.ofKey c.key).1 = Connective.or.keyword) := by
    intro hw
    simp [Condition.connective?, hw] at h
  simp only [Dialect.condition, hw, if_false]
  cases c.comparand with
  | one v => rfl
  | many vs => rfl

theorem condition_of_no_connective {c : Condition} (h : c.connective? = none) :
    ∃ t, d.condition c = .ok t := ⟨_, condition_eq h⟩

theorem traverse_of_no_connective : ∀ {cs : Conditions Condition},
    (∀ c ∈ cs.leaves, c.connective? = none) → ∃ ts, cs.traverse d.condition = .ok ts
  | nil, _ => ⟨nil, rfl⟩
  | leaf c rest, h => by
    obtain ⟨t, ht⟩ := condition_of_no_connective (d := d) (h c List.mem_cons_self)
    obtain ⟨ts, hts⟩ := traverse_of_no_connective fun c' hc' => h c' (List.mem_cons_of_mem c hc')
    exact ⟨leaf t ts, by rw [traverse, ht, hts]; rfl⟩
  | group word inner rest, h => by
    obtain ⟨ts, hts⟩ := traverse_of_no_connective fun c hc => h c (List.mem_append_left _ hc)
    obtain ⟨ts', hts'⟩ := traverse_of_no_connective fun c hc => h c (List.mem_append_right _ hc)
    exact ⟨group word ts ts', by rw [traverse, hts, hts']; rfl⟩

/-- The first leaf that names a connective is the error. -/
theorem traverse_of_connective {word : Text} : ∀ cs : Conditions Condition,
    cs.connective? = some word → cs.traverse d.condition = .error (.connectiveAsColumn word)
  | nil, h => by cases h
  | leaf c rest, h => by
    rw [connective?, leaves, List.findSome?_cons] at h
    cases hc : c.connective? with
    | some w =>
      rw [hc] at h
      cases h
      rw [traverse, condition_of_connective hc]
      rfl
    | none =>
      rw [hc] at h
      obtain ⟨t, ht⟩ := condition_of_no_connective (d := d) hc
      rw [traverse, ht, traverse_of_connective rest h]
      rfl
  | group word' inner rest, h => by
    rw [connective?, leaves, List.findSome?_append, Option.or_eq_some_iff] at h
    rcases h with h | ⟨hi, hr⟩
    · rw [traverse, traverse_of_connective inner h]
      rfl
    · obtain ⟨ts, hts⟩ := traverse_of_no_connective (d := d) (List.findSome?_eq_none_iff.mp hi)
      rw [traverse, hts, traverse_of_connective rest hr]
      rfl

theorem length_leaves_traverse {α β ε : Type} {f : α → Except ε β} {cs : Conditions α}
    {cs' : Conditions β} (h : cs.traverse f = .ok cs') : cs'.leaves.length = cs.leaves.length := by
  have hm := (traverse_ok (g := fun _ => ()) (h := fun _ => ()) (P := fun _ => True)
    (fun _ _ _ _ => ⟨rfl, trivial⟩) h).1
  simpa [leaves_map] using congrArg (fun t => t.leaves.length) hm

/-- Written with any bindings, a tree reads as a formula over the texts of its leaves. -/
theorem reads_written {cs : Conditions Condition} {ts : Conditions Template} (bs : Bindings)
    (h : cs.traverse d.condition = .ok ts) (hn : cs.leaves ≠ []) :
    ∃ fragments f, (cs.leaves.mapM (Draft.condition d)).run bs = (.ok fragments, (ts.write d bs).2) ∧
      fragments.length = cs.leaves.length ∧ (∀ s ∈ fragments, s ≠ []) ∧
      Formula.Reads fragments (Text.join Connective.and.spaced ((ts.write d bs).1.members id)) f := by
  have hrun := run_traverse_condition bs h
  obtain ⟨-, hlength⟩ := run_traverse_ok hrun
  have hn' : (ts.write d bs).1.leaves ≠ [] :=
    List.ne_nil_of_length_pos (hlength ▸ List.length_pos_iff.mpr hn)
  obtain ⟨f, hf, -⟩ := reads_members hn'
  have hleaves := run_mapM_leaves_of_ok hrun
  refine ⟨_, f, hleaves, hlength, ?_, hf⟩
  exact run_mapM_ok (fun _ _ _ _ hs => (Draft.stands_of_condition_ok hs).ne_nil) hleaves

end Conditions

/-! ## The text of a change -/

namespace Template

variable (d : Dialect)

theorem writeAll_append : ∀ (ts us : List Template) (bs : Bindings), writeAll d (ts ++ us) bs =
    ((writeAll d ts bs).1 ++ (writeAll d us (writeAll d ts bs).2).1,
      (writeAll d us (writeAll d ts bs).2).2)
  | [], _, _ => rfl
  | t :: ts, us, bs => by
    rw [List.cons_append, writeAll, writeAll]
    dsimp only
    rw [writeAll_append ts us]
    rfl

theorem writeAll_restriction {ts : Conditions Template} (h : ts.leaves ≠ []) (bs : Bindings) :
    writeAll d (Clause.restriction (ts.members ofText)) bs =
      (["WHERE".toList, Text.join Connective.and.spaced ((ts.write d bs).1.members id)],
        (ts.write d bs).2) := by
  have hm : (ts.members ofText).isEmpty = false :=
    List.isEmpty_eq_false_iff.mpr (mt (Conditions.members_eq_nil_iff _ ts).mp h)
  rw [Clause.restriction, hm, if_neg Bool.false_ne_true, writeAll, ofText, write, write]
  dsimp only
  rw [writeAll, write_join, Conditions.writeAll_members]
  rfl

theorem writeAll_window (limit : Option UInt64) (bs : Bindings) :
    (writeAll d (Clause.window (limit.map (none, ·))) bs).1 =
      (limit.map fun _ => "LIMIT ".toList ++ placeholder (bs.keyFor "limit".toList)).toList := by
  cases limit with
  | none => rfl
  | some m => simp [Clause.window, rowCount, writeAll, write, Bindings.bind, Dialect.place,
      Dialect.direct?, Dialect.dress, Value.isNull, Value.isEmptyText, Value.isNumber]

end Template

namespace Dialect

variable {d : Dialect}

/-- Behind `head`, whose values are bound already, the text has a clause to which each leaf of the
conditions contributes the fragment that it writes, and behind that nothing but the place of the
limit. No fragment is empty. -/
def Restricts (d : Dialect) (head : Text) (bs : Bindings) (cs : Conditions Condition)
    (limit : Option UInt64) (text : Text) : Prop :=
  ∃ fragments clause f bs',
    (cs.leaves.mapM (Draft.condition d)).run bs = (.ok fragments, bs') ∧
    fragments.length = cs.leaves.length ∧ (∀ s ∈ fragments, s ≠ []) ∧
    Formula.Reads fragments clause f ∧
    text = head ++ " WHERE ".toList ++ clause ++
      limit.elim [] fun _ => " LIMIT ".toList ++ placeholder (bs'.keyFor "limit".toList)

theorem restricts_clauses {cs : Conditions Condition} {ts : Conditions Template}
    {head : List Template} (ht : cs.traverse d.condition = .ok ts) (hn : cs.leaves ≠ [])
    (hhead : head ≠ []) (limit : Option UInt64) :
    d.Restricts (Text.join [' '] (Template.writeAll d head .empty).1)
      (Template.writeAll d head .empty).2 cs limit
      ((Sentence.ofClauses (head ++ Clause.restriction (ts.members Template.ofText) ++
        Clause.window (limit.map (none, ·)))).write d .empty).1 := by
  have hts : ts.leaves ≠ [] := by
    rw [← List.length_pos_iff, Conditions.length_leaves_traverse ht, List.length_pos_iff]
    exact hn
  have hheads : (Template.writeAll d head .empty).1 ≠ [] := by
    obtain ⟨t, rest, rfl⟩ := List.exists_cons_of_ne_nil hhead
    simp [Template.writeAll]
  obtain ⟨fragments, f, hrun, hlength, hne, hf⟩ :=
    Conditions.reads_written (Template.writeAll d head .empty).2 ht hn
  refine ⟨fragments, _, f, _, hrun, hlength, hne, hf, ?_⟩
  rw [Sentence.ofClauses, Template.write_join, List.append_assoc, Template.writeAll_append,
    Template.writeAll_append, Template.writeAll_restriction d hts, Template.writeAll_window,
    Text.join_append hheads (by simp)]
  cases limit with
  | none => simp [Text.join, List.intercalate_cons_cons]
  | some m => simp [Text.join, List.intercalate_cons_cons]

end Dialect

/-! ## Four reasons -/

theorem Text.strip_eq_nil_iff {s : Text} : strip s = [] ↔ s.all isBlank = true := by
  rw [strip, trim_eq_nil_iff, List.all_eq_true]

/-- Why the conditions of a change are refused. -/
def Conditions.fault? (write : Write) (cs : Conditions Condition) : Option CommandError :=
  match cs.connective? with
  | some word => some (.connectiveAsColumn word)
  | none => if cs.leaves = [] then some (.noConditions write) else none

/-- Why a change is refused, where `values` are the assigned ones if it assigns any. Of several
reasons the first in this order counts. -/
def Write.fault? (write : Write) (table : Text) (values : Option (List Assignment))
    (cs : Conditions Condition) : Option CommandError :=
  if table.all Text.isBlank then some .noTable
  else if values = some [] then some (.noValues write)
  else cs.fault? write

namespace Dialect

/-- The answer to a change: its fault, or a statement whose text restricts the rows. -/
def Guarded (d : Dialect) (begun : Nat) (c : Command) (fault? : Option CommandError) (head : Text)
    (bs : Bindings) (cs : Conditions Condition) (limit : Option UInt64) : Prop :=
  match fault? with
  | some e => (d.compile begun c).1 = .error e
  | none => ∃ text bs', d.compile begun c = (.ok (d.finish (begun + 1) text bs'), begun + 1) ∧
      d.Restricts head bs cs limit text

variable {d : Dialect}

theorem guarded_restriction {write : Write} {c : Command} {cs : Conditions Condition}
    {limit : Option UInt64} (head : List Template) (hhead : head ≠ [])
    (h : d.plan c = d.withRestriction write cs fun members =>
      Sentence.ofClauses (head ++ Clause.restriction members ++ Clause.window (limit.map (none, ·))))
    (begun : Nat) :
    d.Guarded begun c (cs.fault? write) (Text.join [' '] (Template.writeAll d head .empty).1)
      (Template.writeAll d head .empty).2 cs limit := by
  unfold Conditions.fault?
  cases hword : cs.connective? with
  | some word =>
    have ht := Conditions.traverse_of_connective (d := d) cs hword
    have hp : d.plan c = .abandoned (.connectiveAsColumn word) := by
      rw [h, withRestriction, withConditions, conditions, ht]
      rfl
    simp only [Guarded, compile, hp]
  | none =>
    obtain ⟨ts, ht⟩ :=
      Conditions.traverse_of_no_connective (d := d) (List.findSome?_eq_none_iff.mp hword)
    have hmembers : ts.members Template.ofText = [] ↔ cs.leaves = [] := by
      rw [Conditions.members_eq_nil_iff, ← List.length_eq_zero_iff,
        Conditions.length_leaves_traverse ht, List.length_eq_zero_iff]
    rw [withRestriction, withConditions, conditions, ht] at h
    by_cases hn : cs.leaves = []
    · have hp : d.plan c = .abandoned (.noConditions write) := by
        rw [h]
        simp [Except.map, hmembers.mpr hn]
      simp only [hn, if_true, Guarded, compile, hp]
    · have hp : d.plan c = .ready (Sentence.ofClauses (head ++
          Clause.restriction (ts.members Template.ofText) ++
            Clause.window (limit.map (none, ·)))) := by
        rw [h]
        simp [Except.map, mt hmembers.mp hn]
      simp only [hn, if_false, Guarded]
      exact ⟨_, _, compile_ready hp begun, restricts_clauses ht hn hhead limit⟩

theorem guarded_refused {c : Command} {e : CommandError} (h : d.plan c = .refused e) (begun : Nat)
    (head : Text) (bs : Bindings) (cs : Conditions Condition) (limit : Option UInt64) :
    d.Guarded begun c (some e) head bs cs limit := by
  simp only [Guarded, compile, h]

theorem Guarded.of_compile_ok {begun n : Nat} {c : Command} {fault? : Option CommandError}
    {head : Text} {bs : Bindings} {cs : Conditions Condition} {limit : Option UInt64} {st : Statement}
    (h : d.Guarded begun c fault? head bs cs limit) (hf : fault? = none)
    (hc : d.compile begun c = (.ok st, n)) :
    ∃ text bs', d.compile begun c = (.ok (d.finish (begun + 1) text bs'), begun + 1) ∧
      d.Restricts head bs cs limit text ∧ d.finish (begun + 1) text bs' = st := by
  rw [hf] at h
  obtain ⟨text, bs', hcompile, hrestricts⟩ := h
  exact ⟨text, bs', hcompile, hrestricts,
    Except.ok.inj (congrArg Prod.fst (hcompile.symm.trans hc))⟩

theorem withTable_eq (d : Dialect) (table : Text) (next : Text → Plan) :
    d.withTable table next =
      if table.all Text.isBlank then .refused .noTable else next (d.quote table) := by
  rw [withTable, Flavor.table?]
  by_cases h : table.all Text.isBlank = true
  · rw [if_pos (Text.strip_eq_nil_iff.mpr h), if_pos h]
  · rw [if_neg (mt Text.strip_eq_nil_iff.mp h), if_neg h]
    rfl

theorem update_guarded (begun : Nat) (table : Text) (values : List Assignment)
    (cs : Conditions Condition) (limit : Option UInt64) :
    let sets := Template.writeAll d (values.map (·.set d)) .empty
    d.Guarded begun (.update table values cs limit) (Write.update.fault? table (some values) cs)
      ("UPDATE ".toList ++ d.quote table ++ " SET ".toList ++ Text.join ", ".toList sets.1) sets.2
      cs limit := by
  intro sets
  have hplan : d.plan (.update table values cs limit) = _ := d.withTable_eq table _
  unfold Write.fault?
  by_cases hb : table.all Text.isBlank = true
  · rw [if_pos hb] at hplan ⊢
    exact guarded_refused hplan begun _ _ cs limit
  · rw [if_neg hb] at hplan ⊢
    by_cases hv : values = []
    · rw [hv, List.isEmpty_nil, if_pos rfl, ← hv] at hplan
      rw [if_pos (congrArg some hv)]
      exact guarded_refused hplan begun _ _ cs limit
    · rw [List.isEmpty_eq_false_iff.mpr hv, if_neg Bool.false_ne_true] at hplan
      rw [if_neg fun e => hv (Option.some.inj e)]
      have hg := guarded_restriction (Clause.text "UPDATE".toList (some (d.quote table)) ++
        [.ofText "SET".toList, Template.join ", ".toList (values.map (·.set d))]) (by simp) hplan begun
      simpa [Clause.text, Template.writeAll, Template.ofText, Template.write, Template.write_join,
        Text.join, List.intercalate_cons_cons] using hg

theorem delete_guarded (begun : Nat) (table : Text) (cs : Conditions Condition)
    (limit : Option UInt64) :
    d.Guarded begun (.delete table cs limit) (Write.delete.fault? table none cs)
      ("DELETE FROM ".toList ++ d.quote table) .empty cs limit := by
  have hplan : d.plan (.delete table cs limit) = _ := d.withTable_eq table _
  unfold Write.fault?
  by_cases hb : table.all Text.isBlank = true
  · rw [if_pos hb] at hplan ⊢
    exact guarded_refused hplan begun _ _ cs limit
  · rw [if_neg hb] at hplan ⊢
    rw [if_neg (by simp)]
    have hg := guarded_restriction (Clause.text "DELETE FROM".toList (some (d.quote table)))
      (by simp [Clause.text]) hplan begun
    simpa [Clause.text, Template.writeAll, Template.ofText, Template.write, Text.join,
      List.intercalate_cons_cons] using hg

/-- **Changes are guarded.** A change fails exactly if its table is blank, if it assigns values and
there are none, if a leaf of its conditions names a connective, or if there is no leaf at any depth,
and the first of these is its error. Otherwise its text has a clause for the conditions with one
fragment for each leaf, and no fragment is empty. -/
theorem change_guarded (d : Dialect) (begun : Nat) (table : Text) (values : List Assignment)
    (cs : Conditions Condition) (limit : Option UInt64) :
    let sets := Template.writeAll d (values.map (·.set d)) .empty
    d.Guarded begun (.update table values cs limit) (Write.update.fault? table (some values) cs)
      ("UPDATE ".toList ++ d.quote table ++ " SET ".toList ++ Text.join ", ".toList sets.1) sets.2
      cs limit ∧
    d.Guarded begun (.delete table cs limit) (Write.delete.fault? table none cs)
      ("DELETE FROM ".toList ++ d.quote table) .empty cs limit :=
  ⟨update_guarded begun table values cs limit, delete_guarded begun table cs limit⟩

/-- Conditions with a group that holds nothing, and a list without values in a group that does. -/
theorem change_guarded_orders :
    let d : Dialect := .ofFlavor .mysql
    let values : List Assignment := [⟨"state".toList, .text "paid".toList⟩]
    let cs : Conditions Condition := .group .and .nil <| .leaf ⟨"id >".toList, .one (.signed 5)⟩ <|
      .group .or (.leaf ⟨"note is null".toList, .one .null⟩ <| .leaf ⟨"id".toList, .many []⟩ .nil) .nil
    (∃ text bs', d.compile 0 (.update "orders".toList values cs (some 2)) =
        (.ok (d.finish 1 text bs'), 1) ∧
      d.Restricts "UPDATE `orders` SET `state` = ':state:'".toList
        (Bindings.empty.bind "state".toList (.text "paid".toList)).2 cs (some 2) text ∧
      (d.finish 1 text bs').sql = "UPDATE `orders` SET `state` = 'paid' ".toList ++
        "WHERE `id` > 5 AND (`note` IS NULL OR 0 = 1) LIMIT 2".toList) ∧
    ∃ text bs', d.compile 0 (.delete "orders".toList cs none) = (.ok (d.finish 1 text bs'), 1) ∧
      d.Restricts "DELETE FROM `orders`".toList .empty cs none text ∧
      (d.finish 1 text bs').sql =
        "DELETE FROM `orders` WHERE `id` > 5 AND (`note` IS NULL OR 0 = 1)".toList := by
  intro d values cs
  refine ⟨?_, ?_⟩
  · have hguarded := (change_guarded d 0 "orders".toList values cs (some 2)).1
    have hrun : d.compile 0 (.update "orders".toList values cs (some 2)) = (.ok _, 1) := rfl
    obtain ⟨text, bs', hcompile, hrestricts, hst⟩ := hguarded.of_compile_ok (by decide +kernel) hrun
    exact ⟨text, bs', hcompile, hrestricts, (congrArg Statement.sql hst).trans (by decide +kernel)⟩
  · have hguarded := (change_guarded d 0 "orders".toList values cs none).2
    have hrun : d.compile 0 (.delete "orders".toList cs none) = (.ok _, 1) := rfl
    obtain ⟨text, bs', hcompile, hrestricts, hst⟩ := hguarded.of_compile_ok (by decide +kernel) hrun
    exact ⟨text, bs', hcompile, hrestricts, (congrArg Statement.sql hst).trans (by decide +kernel)⟩

-- Groups that hold only groups are no conditions.
example : Write.delete.fault? "t".toList none (.group .or (.group .and .nil .nil) .nil) =
    some (.noConditions .delete) := rfl

end Dialect

end SqlForge
