import SqlForge.Proofs.Refusals

/-!
# What a draft keeps of its steps

The steps of a draft come in any order and any number. Each of them adds to what is there, and the
only thing that it can replace are the members of the conditions. So the fragments of a draft
are what its steps have answered, one after the other, and its bindings begin with those of every
draft before it.
-/

namespace SqlForge

namespace Template

variable (d : Dialect)

theorem gains_writeAll (ts : List Template) (bs : Bindings) :
    ∃ own, bs.Gains own (writeAll d ts bs).2 ∧
      own.map Binding.value = ts.flatMap fun t => t.slots.map Binding.value := by
  have hjoin := write_join d [] ts bs
  rw [write_eq] at hjoin
  refine ⟨((join [] ts).assign bs).1.slots, congrArg Prod.snd hjoin ▸ gains_assign (join [] ts) bs, ?_⟩
  rw [values_assign, slots_join, List.map_flatMap]

theorem gains_assignments {f : Assignment → Template}
    (hf : ∀ a, (f a).slots.map Binding.value = [a.value]) (values : List Assignment) (bs : Bindings) :
    ∃ own, bs.Gains own (writeAll d (values.map f) bs).2 ∧
      own.map Binding.value = values.map Assignment.value := by
  obtain ⟨own, hg, hv⟩ := gains_writeAll d (values.map f) bs
  refine ⟨own, hg, ?_⟩
  simp only [hv, List.flatMap_map, hf]
  exact List.flatMap_pure_eq_map Assignment.value values

end Template

namespace Draft

/-! ## Steps -/

inductive Step where
  | bind (key : Text) (v : Value)
  | select (fs : List Field)
  | insert (values : List Assignment)
  | update (values : List Assignment)
  | restrict (cs : Conditions Condition)

inductive Answer where
  | bound (key : Text)
  | selected (fields : List Text)
  | inserted (columns values : List Text)
  | updated (fields : List Text)
  | restricted (text : Text)
  | refused (e : CommandError)

namespace Answer

def fields : Answer → List Text
  | selected fields | updated fields | inserted fields _ => fields
  | bound _ | restricted _ | refused _ => []

def values : Answer → List Text
  | inserted _ values => values
  | bound _ | selected _ | updated _ | restricted _ | refused _ => []

def restricts : Answer → Bool
  | restricted _ => true
  | _ => false

def isRefused : Answer → Bool
  | refused _ => true
  | _ => false

end Answer

/-- The values that a step binds unless it is refused. -/
def Step.values : Step → List Value
  | bind _ v => [v]
  | select _ => []
  | insert values | update values => values.map Assignment.value
  | restrict cs => cs.leaves.flatMap Condition.values

def step (d : Dialect) (w : Draft) : Step → Answer × Draft
  | .bind key v =>
    let (own, w) := w.bind key v
    (.bound own, w)
  | .select fs =>
    let (written, w) := w.select d fs
    (.selected written, w)
  | .insert values =>
    let ((columns, placed), w) := w.insert d values
    (.inserted columns placed, w)
  | .update values =>
    let (written, w) := w.update d values
    (.updated written, w)
  | .restrict cs =>
    match w.restrict d cs with
    | (.ok text, w) => (.restricted text, w)
    | (.error e, w) => (.refused e, w)

def run (d : Dialect) (w : Draft) : List Step → List Answer × Draft
  | [] => ([], w)
  | s :: steps =>
    let (a, w) := w.step d s
    let (as, w) := w.run d steps
    (a :: as, w)

/-! ## What one step does -/

/-- `w'` is `w` with what the answer `a` to the step `s` tells added to it, and nothing else. A step
that is refused leaves a part of its values bound. -/
structure Extends (d : Dialect) (w : Draft) (s : Step) (a : Answer) (w' : Draft) : Prop where
  number : w'.number = w.number
  bindings : ∃ own, w.bindings.Gains own w'.bindings ∧ own.map Binding.value <+: s.values ∧
    (a.isRefused = false → own.map Binding.value = s.values)
  fields : w'.fields = w.fields ++ a.fields
  values : w'.values = w.values ++ a.values
  kept : a.restricts = false → w'.conditions = w.conditions
  written : ∀ text, a = .restricted text → ∃ cs ts texts, s = .restrict cs ∧
    d.conditions cs = .ok ts ∧ w'.conditions = (Template.writeAll d ts w.bindings).1 ∧
    (cs.leaves.mapM (condition d)).run w.bindings = (.ok texts, w'.bindings) ∧
    cs.Fragments texts w'.conditions ∧
    text = Text.join Connective.and.spaced w'.conditions

variable {d : Dialect} {w : Draft}

theorem gains_of_restrict_error {cs : Conditions Condition} {e : CommandError}
    (h : (w.restrict d cs).1 = .error e) :
    ∃ own bs, w.restrict d cs = (.error e, { w with bindings := bs }) ∧ w.bindings.Gains own bs ∧
      own.map Binding.value <+: cs.leaves.flatMap Condition.values := by
  obtain ⟨before, c, word, after, hcs, hb, hc⟩ := exists_first_connective (restrict_fails_iff.mp ⟨e, h⟩)
  obtain ⟨text, w', hok, he⟩ := restrict_of_connective (d := d) (w := w) hcs hb hc
  obtain ⟨own, hg, hv⟩ := gains_of_restrict_ok hok
  rw [Conditions.leaves_row] at hv
  rw [he] at h
  cases h
  refine ⟨own, w'.bindings, he, hg, ?_⟩
  rw [hv, hcs, List.flatMap_append]
  exact List.prefix_append _ _

theorem extends_restrict (cs : Conditions Condition) :
    Extends d w (.restrict cs) (w.step d (.restrict cs)).1 (w.step d (.restrict cs)).2 := by
  cases hr : w.restrict d cs with
  | mk r w' =>
    cases r with
    | error e =>
      have hstep : w.step d (.restrict cs) = (.refused e, w') := by rw [step, hr]
      obtain ⟨own, bs, he, hg, hv⟩ := gains_of_restrict_error (congrArg Prod.fst hr)
      cases hr.symm.trans he
      rw [hstep]
      refine ⟨rfl, ⟨own, hg, hv, fun h => ?_⟩, (List.append_nil _).symm, (List.append_nil _).symm,
        fun _ => rfl, fun _ h => ?_⟩
      · cases h
      · cases h
    | ok text =>
      have hstep : w.step d (.restrict cs) = (.restricted text, w') := by rw [step, hr]
      obtain ⟨own, hg, hv⟩ := gains_of_restrict_ok hr
      obtain ⟨texts, hrun, hfragments, -, ht⟩ := restrict_written hr
      -- the same text and the same members as in a statement with these conditions
      have heq := w.restrict_eq d cs
      cases hts : d.conditions cs with
      | error e =>
        rw [hts, hr] at heq
        cases heq
      | ok ts =>
        rw [hts, hr] at heq
        cases heq
        rw [hstep]
        refine ⟨rfl, ⟨own, hg, by rw [hv]; exact List.prefix_rfl, fun _ => hv⟩,
          (List.append_nil _).symm, (List.append_nil _).symm, fun h => ?_, fun text' h => ?_⟩
        · cases h
        · cases h
          exact ⟨cs, ts, texts, rfl, hts, rfl, hrun, hfragments, ht⟩

theorem extends_step : ∀ s : Step, Extends d w s (w.step d s).1 (w.step d s).2
  | .bind key v =>
    { number := rfl
      bindings := ⟨_, .bind w.bindings key v, List.prefix_rfl, fun _ => rfl⟩
      fields := (List.append_nil _).symm
      values := (List.append_nil _).symm
      kept := fun _ => rfl
      written := fun _ h => by cases h }
  | .select fs =>
    { number := rfl
      bindings := ⟨[], .refl w.bindings, List.prefix_rfl, fun _ => rfl⟩
      fields := rfl
      values := (List.append_nil _).symm
      kept := fun _ => rfl
      written := fun _ h => by cases h }
  | .insert values => by
    obtain ⟨own, hg, hv⟩ :=
      Template.gains_assignments d (f := Assignment.placed) (fun _ => rfl) values w.bindings
    exact
      { number := rfl
        bindings := ⟨own, hg, by rw [hv]; exact List.prefix_rfl, fun _ => hv⟩
        fields := rfl
        values := rfl
        kept := fun _ => rfl
        written := fun _ h => by cases h }
  | .update values => by
    obtain ⟨own, hg, hv⟩ :=
      Template.gains_assignments d (f := (·.set d)) (fun _ => rfl) values w.bindings
    exact
      { number := rfl
        bindings := ⟨own, hg, by rw [hv]; exact List.prefix_rfl, fun _ => hv⟩
        fields := rfl
        values := (List.append_nil _).symm
        kept := fun _ => rfl
        written := fun _ h => by cases h }
  | .restrict cs => extends_restrict cs

/-! ## What a run does -/

structure Grows (w : Draft) (as : List Answer) (w' : Draft) : Prop where
  number : w'.number = w.number
  bindings : w.bindings.entries <+: w'.bindings.entries
  fields : w'.fields = w.fields ++ as.flatMap Answer.fields
  values : w'.values = w.values ++ as.flatMap Answer.values
  kept : (∀ a ∈ as, a.restricts = false) → w'.conditions = w.conditions

theorem run_grows : ∀ (steps : List Step) (w : Draft), w.Grows (w.run d steps).1 (w.run d steps).2
  | [], w => ⟨rfl, List.prefix_rfl, (List.append_nil _).symm, (List.append_nil _).symm, fun _ => rfl⟩
  | s :: steps, w => by
    have hs : Extends d w s _ _ := extends_step s
    have hr := run_grows steps (w.step d s).2
    obtain ⟨own, hg, -⟩ := hs.bindings
    refine ⟨hr.number.trans hs.number, ?_, ?_, ?_, fun h => ?_⟩
    · refine List.IsPrefix.trans ?_ hr.bindings
      rw [hg.entries]
      exact List.prefix_append _ _
    · change ((w.step d s).2.run d steps).2.fields = _
      rw [hr.fields, hs.fields, List.append_assoc]
      rfl
    · change ((w.step d s).2.run d steps).2.values = _
      rw [hr.values, hs.values, List.append_assoc]
      rfl
    · rw [← hs.kept (h _ List.mem_cons_self)]
      exact hr.kept fun a ha => h a (List.mem_cons_of_mem _ ha)

theorem run_append (w : Draft) : ∀ pre post : List Step, w.run d (pre ++ post) =
    ((w.run d pre).1 ++ ((w.run d pre).2.run d post).1, ((w.run d pre).2.run d post).2)
  | [], _ => rfl
  | s :: pre, post => by
    have ih := run_append (w.step d s).2 pre post
    rw [List.cons_append, run, run]
    dsimp only
    rw [ih]
    rfl

/-- **A draft only adds.** A new draft is empty, and after any steps it holds the fields and the values
that they have answered, in their order, and the members of the last conditions that were not refused.
Each step adds to the draft what its answer tells and the values that it binds, and these stay in front
of all that come later. The finished statement has the number of the draft and its bindings. -/
theorem run_accumulates (d : Dialect) (number : Nat) (steps : List Step) :
    let (answers, w) := (start number).run d steps
    start number = ⟨number, .empty, [], [], []⟩ ∧ (start number).bindings.entries = [] ∧
    w.number = number ∧
    w.fields = answers.flatMap Answer.fields ∧
    w.values = answers.flatMap Answer.values ∧
    ((∀ a ∈ answers, a.restricts = false) → w.conditions = []) ∧
    (∀ pre s post, steps = pre ++ s :: post →
      let (before, w₁) := (start number).run d pre
      let (a, w₂) := w₁.step d s
      let (behind, w₃) := w₂.run d post
      answers = before ++ a :: behind ∧ w = w₃ ∧ w₁.Extends d s a w₂ ∧
        w₂.bindings.entries <+: w.bindings.entries ∧
        ((∀ a ∈ behind, a.restricts = false) → w.conditions = w₂.conditions)) ∧
    ∀ sql,
      let st := w.finish d sql
      st.number = number ∧ st.bindings = w.bindings ∧ st.sql = w.bindings.fill d.cleaner? sql := by
  have hrun := run_grows (d := d) steps (start number)
  refine ⟨rfl, rfl, hrun.number, hrun.fields, hrun.values, hrun.kept, ?_, fun sql => ?_⟩
  · rintro pre s post rfl
    have hpost := run_grows (d := d) post (((start number).run d pre).2.step d s).2
    rw [run_append]
    exact ⟨rfl, rfl, extends_step s, hpost.bindings, hpost.kept⟩
  · exact ⟨hrun.number, rfl, rfl⟩

/-- Conditions that are refused behind others that are not, with columns of one name before and
after them. -/
theorem run_accumulates_refused :
    let d : Dialect := .ofFlavor .mysql
    let pre : List Step := [.bind "a".toList (.signed 1),
      .insert [⟨"a".toList, .text "x".toList⟩, ⟨"b".toList, .null⟩]]
    let cs : Conditions Condition := .leaf ⟨"a >".toList, .one (.signed 2)⟩ .nil
    let post : List Step := [.update [⟨"a".toList, .bool true⟩],
      .restrict (.leaf ⟨"c".toList, .one (.signed 3)⟩ (.leaf ⟨"OR".toList, .one .null⟩ .nil))]
    let (answers, w) := (start 7).run d (pre ++ .restrict cs :: post)
    (∃ a ∈ answers, a.restricts = true) ∧ w.number = 7 ∧
      w.fields = ["`a`".toList, "`b`".toList, "`a` = TRUE".toList] ∧
      w.values = ["':a1:'".toList, "NULL".toList] ∧
      w.conditions = ["`a` > :where_a:".toList] ∧
      w.bindings.keys = ["a".toList, "a1".toList, "b".toList, "where_a".toList, "a4".toList,
        "where_c".toList] := by
  intro d pre cs post
  obtain ⟨-, -, hnumber, hfields, hvalues, -, hsteps, -⟩ := run_accumulates d 7 (pre ++ .restrict cs :: post)
  obtain ⟨-, -, -, -, hkept⟩ := hsteps pre (.restrict cs) post rfl
  have hlast := hkept (by decide +kernel)
  refine ⟨?_, hnumber, hfields.trans ?_, hvalues.trans ?_, hlast.trans ?_, ?_⟩ <;> decide +kernel

end Draft

end SqlForge
