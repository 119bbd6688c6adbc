import SqlForge.Proofs.Guards
import SqlForge.Proofs.Ownership

/-!
# Conditions refused midway

A draft writes conditions leaf by leaf, in the order in which they stand, and stops at the first
one that names a connective. What stays of it are the values of the leaves before, just as if
these had been all. If no leaf is refused, the draft holds one fragment for each outermost member,
put together from the texts of the leaves, and nothing of the conditions before.
-/

namespace SqlForge

namespace Conditions

variable {α β ε σ : Type}

/-- Leaves without a group around them. -/
def row : List α → Conditions α
  | [] => nil
  | a :: as => leaf a (row as)

theorem leaves_row : ∀ as : List α, (row as).leaves = as
  | [] => rfl
  | a :: as => congrArg (a :: ·) (leaves_row as)

theorem run_traverse_of_mapM_ok {f : α → ExceptT ε (StateM σ) β} {cs : Conditions α} {s s' : σ}
    {bs : List β} (h : (cs.leaves.mapM f).run s = (.ok bs, s')) :
    ∃ cs', (cs.traverse f).run s = (.ok cs', s') := by
  rw [run_mapM_leaves] at h
  cases hr : (cs.traverse f).run s with
  | mk r s₁ =>
    rw [hr] at h
    cases r with
    | error e => cases h
    | ok cs' =>
      cases h
      exact ⟨cs', rfl⟩

theorem run_traverse_of_mapM_error {f : α → ExceptT ε (StateM σ) β} {cs : Conditions α} {s s' : σ}
    {e : ε} (h : (cs.leaves.mapM f).run s = (.error e, s')) :
    (cs.traverse f).run s = (.error e, s') := by
  rw [run_mapM_leaves] at h
  cases hr : (cs.traverse f).run s with
  | mk r s₁ =>
    rw [hr] at h
    cases r with
    | error e' =>
      cases h
      rfl
    | ok cs' => cases h

/-! ## Fragments -/

/-- The outermost members come to the texts `members` if the leaves, from left to right, come to
`texts`. A leaf comes to its own text, and a group to what its members come to, with its word between
them and brackets around them. A group without a leaf at any depth comes to nothing. -/
inductive Fragments : Conditions α → List Text → List Text → Prop
  | nil : Fragments .nil [] []
  | leaf {a : α} {s : Text} {rest : Conditions α} {texts members : List Text}
      (hr : Fragments rest texts members) : Fragments (.leaf a rest) (s :: texts) (s :: members)
  | group {word : Connective} {inner rest : Conditions α} {texts texts' members members' : List Text}
      (hn : inner.leaves ≠ []) (hi : Fragments inner texts members)
      (hr : Fragments rest texts' members') :
      Fragments (.group word inner rest) (texts ++ texts')
        ((['('] ++ Text.join word.spaced members ++ [')']) :: members')
  | hollow {word : Connective} {inner rest : Conditions α} {texts members : List Text}
      (hn : inner.leaves = []) (hr : Fragments rest texts members) :
      Fragments (.group word inner rest) texts members

section
variable {cs : Conditions α} {texts members members' : List Text}

theorem Fragments.length_eq (h : cs.Fragments texts members) : texts.length = cs.leaves.length := by
  induction h with
  | nil => rfl
  | leaf _ ih => exact congrArg (· + 1) ih
  | group _ _ _ ihi ihr => rw [leaves, List.length_append, List.length_append, ihi, ihr]
  | hollow hn _ ih => rw [leaves, hn, List.nil_append, ih]

theorem Fragments.unique (h : cs.Fragments texts members) (h' : cs.Fragments texts members') :
    members = members' := by
  induction h generalizing members' with
  | nil =>
    cases h'
    rfl
  | leaf _ ih =>
    cases h' with
    | leaf hr' => rw [ih hr']
  | @group _ _ _ texts₁ texts₂ _ _ hn hi _ ihi ihr =>
    generalize e : texts₁ ++ texts₂ = texts at h'
    cases h' with
    | group _ hi' hr' =>
      -- both ways the group has as many texts as leaves
      obtain ⟨rfl, rfl⟩ := List.append_inj e (hi.length_eq.trans hi'.length_eq.symm)
      rw [ihi hi', ihr hr']
    | hollow hn' _ => exact absurd hn' hn
  | hollow hn _ ih =>
    cases h' with
    | group hn' _ _ => exact absurd hn hn'
    | hollow _ hr' => exact ih hr'

end

/-- The members of a visited tree are put together from its leaves. -/
theorem fragments_members {f : α → ExceptT ε (StateM σ) Text} : ∀ {cs : Conditions α}
    {written : Conditions Text} {s s' : σ}, (cs.traverse f).run s = (.ok written, s') →
    cs.Fragments written.leaves (written.members id)
  | .nil, written, s, s', h => by
    cases h
    exact .nil
  | .leaf a rest, written, s, s', h => by
    rw [traverse] at h
    obtain ⟨text, s₁, -, h⟩ := run_bind_ok h
    obtain ⟨written', s₂, hr, h⟩ := run_bind_ok h
    cases h
    exact .leaf (fragments_members hr)
  | .group word inner rest, written, s, s', h => by
    rw [traverse] at h
    obtain ⟨writtenᵢ, s₁, hi, h⟩ := run_bind_ok h
    obtain ⟨writtenᵣ, s₂, hr, h⟩ := run_bind_ok h
    cases h
    have hleaves : writtenᵢ.leaves = [] ↔ inner.leaves = [] := by
      rw [← List.length_eq_zero_iff, (run_traverse_ok hi).2, List.length_eq_zero_iff]
    rw [leaves, members_group]
    by_cases hn : inner.leaves = []
    · rw [if_pos ((members_eq_nil_iff id _).mpr (hleaves.mpr hn)), hleaves.mpr hn]
      exact .hollow hn (fragments_members hr)
    · rw [if_neg (mt (members_eq_nil_iff id _).mp (mt hleaves.mp hn))]
      exact .group hn (fragments_members hi) (fragments_members hr)

end Conditions

namespace Draft

open Conditions

variable {d : Dialect} {w w' : Draft} {cs : Conditions Condition} {text : Text}

/-! ## Runs over leaves -/

theorem run_leaves_ok : ∀ {l : List Condition}, (∀ c ∈ l, c.connective? = none) → ∀ bs : Bindings,
    ∃ ss bs', (l.mapM (condition d)).run bs = (.ok ss, bs')
  | [], _, bs => ⟨[], bs, rfl⟩
  | c :: l, h, bs => by
    obtain ⟨t, ht⟩ := condition_of_no_connective (d := d) (h c List.mem_cons_self)
    have hc := run_condition d c bs
    rw [ht] at hc
    obtain ⟨ss, bs', hl⟩ := run_leaves_ok (fun c' hc' => h c' (List.mem_cons_of_mem c hc'))
      (t.write d bs).2
    refine ⟨(t.write d bs).1 :: ss, bs', ?_⟩
    rw [List.mapM_cons, run_bind_of_ok hc, run_bind_of_ok hl]
    rfl

theorem run_leaves_error {before after : List Condition} {c : Condition} {word : Text} {ss : List Text}
    {bs bs' : Bindings} (hb : (before.mapM (condition d)).run bs = (.ok ss, bs'))
    (hc : c.connective? = some word) :
    ((before ++ c :: after).mapM (condition d)).run bs = (.error (.connectiveAsColumn word), bs') := by
  have he := run_condition d c bs'
  rw [condition_of_connective hc] at he
  rw [List.mapM_append, List.mapM_cons, run_bind_of_ok hb]
  exact run_bind_of_error (run_bind_of_error he _) _

/-! ## What a draft keeps -/

theorem restrict_of_ok {written : Conditions Text} {bs : Bindings}
    (h : (cs.traverse (condition d)).run w.bindings = (.ok written, bs)) :
    w.restrict d cs = (.ok (Text.join Connective.and.spaced (written.members id)),
      { w with bindings := bs, conditions := written.members id }) := by
  rw [restrict, h]

theorem restrict_of_error {e : CommandError} {bs : Bindings}
    (h : (cs.traverse (condition d)).run w.bindings = (.error e, bs)) :
    w.restrict d cs = (.error e, { w with bindings := bs }) := by
  rw [restrict, h]

theorem restrict_of_no_connective (h : ∀ c ∈ cs.leaves, c.connective? = none) :
    ∃ text w', w.restrict d cs = (.ok text, w') := by
  obtain ⟨ss, bs, hl⟩ := run_leaves_ok (d := d) h w.bindings
  obtain ⟨written, hrun⟩ := run_traverse_of_mapM_ok hl
  exact ⟨_, _, restrict_of_ok hrun⟩

theorem restrict_of_connective {before after : List Condition} {c : Condition} {word : Text}
    (hcs : cs.leaves = before ++ c :: after) (hb : ∀ b ∈ before, b.connective? = none)
    (hc : c.connective? = some word) :
    ∃ text w', w.restrict d (row before) = (.ok text, w') ∧
      w.restrict d cs = (.error (.connectiveAsColumn word), { w with bindings := w'.bindings }) := by
  obtain ⟨ss, bs, hl⟩ := run_leaves_ok (d := d) hb w.bindings
  have he : (cs.leaves.mapM (condition d)).run w.bindings =
      (.error (.connectiveAsColumn word), bs) := by
    rw [hcs]
    exact run_leaves_error hl hc
  rw [← leaves_row before] at hl
  obtain ⟨written, hrun⟩ := run_traverse_of_mapM_ok hl
  exact ⟨_, _, restrict_of_ok hrun, restrict_of_error (run_traverse_of_mapM_error he)⟩

/-! ## Outcomes -/

theorem exists_first_connective {l : List Condition} (h : ∃ c ∈ l, c.connective? ≠ none) :
    ∃ before c word after, l = before ++ c :: after ∧ (∀ b ∈ before, b.connective? = none) ∧
      c.connective? = some word := by
  induction l with
  | nil => simp at h
  | cons c l ih =>
    cases hc : c.connective? with
    | some word => exact ⟨[], c, word, l, rfl, by simp, hc⟩
    | none =>
      simp only [List.exists_mem_cons_iff, hc, ne_eq, not_true_eq_false, false_or] at h
      obtain ⟨before, c', word, after, rfl, hb, hc'⟩ := ih h
      exact ⟨c :: before, c', word, after, rfl, by simpa [hc] using hb, hc'⟩

theorem restrict_fails_iff :
    (∃ e, (w.restrict d cs).1 = .error e) ↔ ∃ c ∈ cs.leaves, c.connective? ≠ none := by
  constructor
  · rintro ⟨e, he⟩
    by_contra hn
    have hnone : ∀ c ∈ cs.leaves, c.connective? = none := fun c hc => by_contra fun h => hn ⟨c, hc, h⟩
    obtain ⟨text, w', hok⟩ := restrict_of_no_connective (d := d) (w := w) hnone
    rw [hok] at he
    cases he
  · intro h
    obtain ⟨before, c, word, after, hcs, hb, hc⟩ := exists_first_connective h
    obtain ⟨text, w', -, he⟩ := restrict_of_connective (d := d) (w := w) hcs hb hc
    exact ⟨_, congrArg Prod.fst he⟩

theorem gains_of_restrict_ok (h : w.restrict d cs = (.ok text, w')) :
    ∃ own, w.bindings.Gains own w'.bindings ∧
      own.map Binding.value = cs.leaves.flatMap Condition.values := by
  obtain ⟨written, hrun, -⟩ := restrict_ok h
  obtain ⟨owned, rfl, -, hg, ho⟩ := traverse_owned hrun
  refine ⟨_, hg, ?_⟩
  rw [leaves_map, List.map_flatMap, List.flatMap_map]
  exact List.flatMap_congr fun p hp => (ho p hp).values

theorem restrict_written (h : w.restrict d cs = (.ok text, w')) :
    ∃ texts, (cs.leaves.mapM (condition d)).run w.bindings = (.ok texts, w'.bindings) ∧
      cs.Fragments texts w'.conditions ∧
      w' = { w with bindings := w'.bindings, conditions := w'.conditions } ∧
      text = Text.join Connective.and.spaced w'.conditions := by
  obtain ⟨written, hrun, rfl⟩ := restrict_ok h
  have hw := congrArg Prod.snd (h.symm.trans (restrict_of_ok hrun))
  have hmembers : w'.conditions = written.members id := congrArg Draft.conditions hw
  refine ⟨written.leaves, run_mapM_leaves_of_ok hrun, ?_, ?_, ?_⟩
  · exact hmembers ▸ fragments_members hrun
  · exact hmembers ▸ hw
  · rw [hmembers]

/-- **What a tree leaves behind.** Conditions fail exactly if some leaf names a connective, and
the first such leaf is the error. The draft then holds the values of the leaves before, as if
these were all, and is otherwise as it was. Without such a leaf it holds the fragments of the
outermost members, put together from what the leaves have written one after the other, in the place
of the conditions before, and these fragments make up the answer. -/
theorem restrict_outcome (d : Dialect) (w : Draft) (cs : Conditions Condition) :
    ((∃ e, (w.restrict d cs).1 = .error e) ↔ ∃ c ∈ cs.leaves, c.connective? ≠ none) ∧
    (∀ before c after word, cs.leaves = before ++ c :: after →
      (∀ b ∈ before, b.connective? = none) → c.connective? = some word →
      ∃ text w' own, w.restrict d (row before) = (.ok text, w') ∧
        w.bindings.Gains own w'.bindings ∧
        own.map Binding.value = before.flatMap Condition.values ∧
        w.restrict d cs = (.error (.connectiveAsColumn word), { w with bindings := w'.bindings })) ∧
    ∀ text w', w.restrict d cs = (.ok text, w') →
      ∃ texts, (cs.leaves.mapM (condition d)).run w.bindings = (.ok texts, w'.bindings) ∧
        (∀ members, cs.Fragments texts members ↔ w'.conditions = members) ∧
        w' = { w with bindings := w'.bindings, conditions := w'.conditions } ∧
        text = Text.join Connective.and.spaced w'.conditions := by
  refine ⟨restrict_fails_iff, ?_, ?_⟩
  · intro before c after word hcs hb hc
    obtain ⟨text, w', hok, he⟩ := restrict_of_connective (d := d) (w := w) hcs hb hc
    obtain ⟨own, hg, hv⟩ := gains_of_restrict_ok hok
    rw [leaves_row] at hv
    exact ⟨text, w', own, hok, hg, hv, he⟩
  · intro text w' h
    obtain ⟨texts, hrun, hfragments, hw, ht⟩ := restrict_written h
    refine ⟨texts, hrun, fun members => ⟨hfragments.unique, fun e => ?_⟩, hw, ht⟩
    rwa [← e]

/-- A connective with an operator and an empty list, in a group within a group; and conditions with a
group and with groups that hold nothing, which replace earlier ones. -/
theorem restrict_outcome_both :
    let d : Dialect := .ofFlavor .mysql
    let w : Draft := { start 1 with conditions := ["1 = 1".toList] }
    let a : Condition := ⟨"a".toList, .many [.signed 1, .signed 2]⟩
    let b : Condition := ⟨"b IS NULL".toList, .one .null⟩
    let a' : Condition := ⟨"a".toList, .one (.signed 3)⟩
    let refused : Conditions Condition := .leaf a <|
      .group .or (.leaf b <| .group .and (.leaf a' <| .leaf ⟨" OR  >=".toList, .many []⟩ .nil) <|
        .leaf ⟨"AND".toList, .one .null⟩ .nil) <| .leaf ⟨"c".toList, .one (.signed 4)⟩ .nil
    let written : Conditions Condition := .group .and (.group .or .nil .nil) <| .leaf a' <|
      .group .or (.leaf b <| .group .and .nil <| .group .and (.leaf a <| .leaf a' .nil) .nil) .nil
    (∃ bs, w.restrict d refused = (.error (.connectiveAsColumn "OR".toList), { w with bindings := bs }) ∧
      bs.entries = [⟨"where_0a".toList, .signed 1⟩, ⟨"where_1a".toList, .signed 2⟩,
        ⟨"where_a".toList, .signed 3⟩]) ∧
    ∃ text w', w.restrict d written = (.ok text, w') ∧
      w'.conditions = ["`a` = :where_a:".toList,
        "(`b` IS NULL OR (`a` IN (:where_0a:, :where_1a:) AND `a` = :where_a3:))".toList] := by
  intro d w a b a' refused written
  refine ⟨?_, ?_⟩
  · obtain ⟨-, hfail, -⟩ := restrict_outcome d w refused
    obtain ⟨text, w', own, hok, -, -, he⟩ :=
      hfail [a, b, a'] _ _ "OR".toList rfl (by decide +kernel) (by decide +kernel)
    refine ⟨w'.bindings, he, ?_⟩
    have hbs := congrArg (fun r => r.2.bindings.entries) hok
    exact hbs.symm.trans (by decide +kernel)
  · have hrun : w.restrict d written = (.ok _, _) := rfl
    obtain ⟨texts, hleaves, hmembers, -, -⟩ := (restrict_outcome d w written).2.2 _ _ hrun
    refine ⟨_, _, hrun, (hmembers _).mp ?_⟩
    obtain rfl : ["`a` = :where_a:".toList, "`b` IS NULL".toList,
        "`a` IN (:where_0a:, :where_1a:)".toList, "`a` = :where_a3:".toList] = texts := by
      have htexts := congrArg Prod.fst hleaves
      exact Except.ok.inj ((by decide +kernel : _ = _).trans htexts)
    exact .hollow rfl <| .leaf <| .group (by decide) (.leaf <| .hollow rfl <|
      .group (by decide) (.leaf <| .leaf .nil) .nil) .nil

end Draft

end SqlForge
