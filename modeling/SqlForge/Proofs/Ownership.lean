import SqlForge.Proofs.Meaning

/-!
# Whose value a placeholder takes

The values of conditions are bound leaf after leaf, behind all values that are there, and each
under a key that no other value has. The text of a leaf refers to its values by just
these keys, so what a tree adds to the bindings can be dealt out to its leaves again.
-/

namespace SqlForge

namespace Bindings

/-- `bs'` is `bs` with `own` behind it, under keys that are free and distinct. -/
structure Gains (bs : Bindings) (own : List Binding) (bs' : Bindings) : Prop where
  entries : bs'.entries = bs.entries ++ own
  free : ∀ b ∈ own, b.key ∉ bs.keys
  distinct : (own.map Binding.key).Nodup

namespace Gains

theorem of_entries {bs bs' : Bindings} {own : List Binding} (h : bs'.entries = bs.entries ++ own) :
    bs.Gains own bs' := by
  have hnd := bs'.nodup_keys
  rw [Raw.keys, h, List.map_append, List.nodup_append] at hnd
  exact ⟨h, fun b hb hk => hnd.2.2 b.key hk b.key (List.mem_map_of_mem hb) rfl, hnd.2.1⟩

theorem refl (bs : Bindings) : bs.Gains [] bs := of_entries (List.append_nil _).symm

theorem bind (bs : Bindings) (key : Text) (v : Value) :
    bs.Gains [⟨bs.keyFor key, v⟩] (bs.bind key v).2 := of_entries (bs.entries_bind key v)

theorem trans {bs bs₁ bs₂ : Bindings} {own own' : List Binding} (h : bs.Gains own bs₁)
    (h' : bs₁.Gains own' bs₂) : bs.Gains (own ++ own') bs₂ :=
  of_entries (by rw [h'.entries, h.entries, List.append_assoc])

/-- The keys that were there answer as before, and each new one with its value. -/
theorem get? {bs bs' : Bindings} {own : List Binding} (h : bs.Gains own bs') :
    (∀ k ∈ bs.keys, bs'.get? k = bs.get? k) ∧ ∀ b ∈ own, bs'.get? b.key = some b.value := by
  refine ⟨fun k hk => ?_, fun b hb => ?_⟩
  · obtain ⟨v, hv⟩ := mem_keys_iff.mp hk
    rw [get?_eq_some_iff.mpr hv, get?_eq_some_iff, h.entries]
    exact List.mem_append_left _ hv
  · rw [get?_eq_some_iff, h.entries]
    exact List.mem_append_right _ hb

end Gains

/-- Colons are cut off, but not from the front. -/
theorem where_prefix_keyFor (bs : Bindings) {key : Text} (h : "where_".toList <+: key) :
    "where_".toList <+: bs.keyFor key := by
  obtain ⟨s, rfl⟩ := h
  obtain ⟨ds, e, -⟩ := bs.keyFor_eq ("where_".toList ++ s)
  have ht : Text.trim (· == ':') ("where_".toList ++ s) =
      "where_".toList ++ Text.trimEnd (· == ':') s := by
    simp [Text.trim, Text.trimStart, Text.trimEnd_cons]
  rw [e, ht, List.append_assoc]
  exact List.prefix_append _ _

end Bindings

/-! ## Leaves -/

theorem Template.gains_assign : ∀ (t : Template) (bs : Bindings),
    bs.Gains (t.assign bs).1.slots (t.assign bs).2
  | [], bs => .refl bs
  | .text _ :: t, bs => gains_assign t bs
  | .slot b :: t, bs => (Bindings.Gains.bind bs b.key b.value).trans (gains_assign t _)

theorem Template.spell_assign_closedRow (f : Binding → Text) (head : Text) (l : List Binding)
    (bs : Bindings) : ((closedRow head l).assign bs).1.spell f =
      head ++ (Text.join ", ".toList (((closedRow head l).assign bs).1.slots.map f) ++ [')']) := by
  obtain ⟨l', -, h⟩ := assign_closedRow head l bs
  rw [h, spell_closedRow, slots_closedRow]

namespace Dialect

variable (d : Dialect)

/-- A condition as it is written when `own` are the bindings of its values. -/
def fragment (c : Condition) (own : List Binding) : Text :=
  let (column, op) := Operator.ofKey c.key
  let places := own.map fun b => d.place b.value b.key
  match c.comparand with
  | .one v =>
    let left := d.quote column ++ ' ' :: op.keyword
    match v.columnReference? with
    | some other => left ++ ' ' :: d.quote other
    | none => left ++ places.flatMap (' ' :: ·)
  | .many [] => (if op.isNegative then "0 = 0" else "0 = 1").toList
  | .many _ =>
    d.quote column ++ ' ' :: op.forList.keyword ++ " (".toList ++ Text.join ", ".toList places ++ [')']

/-- What a template of a condition asks for, and what it writes. -/
structure Places (c : Condition) (t : Template) : Prop where
  values : t.slots.map Binding.value = c.values
  keys : ∀ b ∈ t.slots, "where_".toList <+: b.key
  spell : ∀ bs : Bindings, (t.assign bs).1.spell (fun b => d.place b.value b.key) =
    d.fragment c (t.assign bs).1.slots

theorem places_one {c : Condition} {v : Value} (h : c.comparand = .one v) :
    d.Places c (d.comparison (Operator.ofKey c.key).1 (Operator.ofKey c.key).2 v) := by
  unfold comparison
  cases hr : v.columnReference? with
  | some other =>
    refine ⟨?_, ?_, fun bs => ?_⟩
    · simp [Template.ofText, Outline.slots, Condition.values, h, hr]
    · simp [Template.ofText, Outline.slots]
    · simp [Template.ofText, Template.assign, Outline.spell, fragment, h, hr]
  | none =>
    by_cases ht : (Operator.ofKey c.key).2.testsNull = true
    · refine ⟨?_, ?_, fun bs => ?_⟩
      · simp [ht, Template.ofText, Outline.slots, Condition.values, h, hr]
      · simp [ht, Template.ofText, Outline.slots]
      · simp [ht, Template.ofText, Template.assign, Outline.spell, Outline.slots, fragment, h, hr]
    · refine ⟨?_, ?_, fun bs => ?_⟩
      · simp [ht, Outline.slots, Condition.values, h, hr]
      · simp [ht, Outline.slots]
      · simp [ht, Template.assign, Bindings.bind, Outline.spell, Outline.slots, fragment, h, hr]

theorem places_many {c : Condition} {vs : List Value} (h : c.comparand = .many vs) :
    d.Places c (d.membership (Operator.ofKey c.key).1 (Operator.ofKey c.key).2 vs) := by
  cases vs with
  | nil =>
    refine ⟨?_, ?_, fun bs => ?_⟩
    · simp [membership, Template.ofText, Outline.slots, Condition.values, h]
    · simp [membership, Template.ofText, Outline.slots]
    · simp [membership, Template.ofText, Template.assign, Outline.spell, fragment, h]
  | cons v vs =>
    rw [membership_eq d _ _ (List.cons_ne_nil v vs)]
    refine ⟨?_, ?_, fun bs => ?_⟩
    · rw [Template.slots_closedRow, List.map_map, Condition.values, h]
      exact List.zipIdx_map_fst 0 (v :: vs)
    · rw [Template.slots_closedRow]
      intro b hb
      obtain ⟨p, -, rfl⟩ := List.mem_map.mp hb
      simp
    · rw [Template.spell_assign_closedRow]
      simp [fragment, h]

theorem places_condition {c : Condition} {t : Template} (h : d.condition c = .ok t) :
    d.Places c t := by
  unfold condition at h
  dsimp only at h
  split at h
  · cases h
  · cases hc : c.comparand with
    | one v =>
      rw [hc] at h
      cases h
      exact d.places_one hc
    | many vs =>
      rw [hc] at h
      cases h
      exact d.places_many hc

end Dialect

namespace Draft

variable {d : Dialect}

/-- `own` are the bindings that `c` adds. -/
structure Owns (c : Condition) (own : List Binding) : Prop where
  values : own.map Binding.value = c.values
  keys : ∀ b ∈ own, "where_".toList <+: b.key

theorem condition_owned {c : Condition} {bs bs' : Bindings} {s : Text}
    (h : (condition d c).run bs = (.ok s, bs')) :
    ∃ own, s = d.fragment c own ∧ bs.Gains own bs' ∧ Owns c own := by
  rw [Conditions.run_condition] at h
  split at h
  · rename_i t ht
    have hp := d.places_condition ht
    rw [t.write_eq] at h
    cases h
    refine ⟨_, hp.spell bs, t.gains_assign bs, ?_, ?_⟩
    · rw [t.values_assign, hp.values]
    · exact t.keys_assign (P := ("where_".toList <+: ·)) (fun bs _ => bs.where_prefix_keyFor) bs hp.keys
  · cases h

/-! ## Trees -/

theorem traverse_owned : ∀ {cs : Conditions Condition} {written : Conditions Text} {bs bs' : Bindings},
    (cs.traverse (condition d)).run bs = (.ok written, bs') →
    ∃ owned : Conditions (Condition × List Binding), owned.map Prod.fst = cs ∧
      written = owned.map (fun p => d.fragment p.1 p.2) ∧
      bs.Gains (owned.leaves.flatMap Prod.snd) bs' ∧ ∀ p ∈ owned.leaves, Owns p.1 p.2
  | .nil, written, bs, bs', h => by
    cases h
    exact ⟨.nil, rfl, rfl, .refl bs, by simp [Conditions.leaves]⟩
  | .leaf c rest, written, bs, bs', h => by
    rw [Conditions.traverse] at h
    obtain ⟨s, bs₁, hc, h⟩ := Conditions.run_bind_ok h
    obtain ⟨written', bs₂, hr, h⟩ := Conditions.run_bind_ok h
    cases h
    obtain ⟨own, rfl, hg, ho⟩ := condition_owned hc
    obtain ⟨owned, rfl, rfl, hgr, hor⟩ := traverse_owned hr
    refine ⟨.leaf (c, own) owned, rfl, rfl, hg.trans hgr, ?_⟩
    intro p hp
    rcases List.mem_cons.mp hp with rfl | hp
    · exact ho
    · exact hor p hp
  | .group word inner rest, written, bs, bs', h => by
    rw [Conditions.traverse] at h
    obtain ⟨writtenᵢ, bs₁, hi, h⟩ := Conditions.run_bind_ok h
    obtain ⟨writtenᵣ, bs₂, hr, h⟩ := Conditions.run_bind_ok h
    cases h
    obtain ⟨ownedᵢ, rfl, rfl, hgi, hoi⟩ := traverse_owned hi
    obtain ⟨ownedᵣ, rfl, rfl, hgr, hor⟩ := traverse_owned hr
    refine ⟨.group word ownedᵢ ownedᵣ, rfl, rfl, ?_, ?_⟩
    · rw [Conditions.leaves, List.flatMap_append]
      exact hgi.trans hgr
    · intro p hp
      rcases List.mem_append.mp hp with hp | hp
      · exact hoi p hp
      · exact hor p hp

/-- **Each placeholder has its value.** A tree of conditions adds the values of its leaves and nothing
else: in order, behind the bindings that are there, and each under a key that begins alike and that no
other value has. A leaf is written with the keys of its own values. -/
theorem restrict_owned {w w' : Draft} {cs : Conditions Condition} {text : Text}
    (h : w.restrict d cs = (.ok text, w')) :
    ∃ owned : Conditions (Condition × List Binding), owned.map Prod.fst = cs ∧
      text = Text.join Connective.and.spaced ((owned.map fun p => d.fragment p.1 p.2).members id) ∧
      (∀ p ∈ owned.leaves, Owns p.1 p.2) ∧
      w.bindings.Gains (owned.leaves.flatMap Prod.snd) w'.bindings ∧
      (∀ k ∈ w.bindings.keys, w'.bindings.get? k = w.bindings.get? k) ∧
      ∀ b ∈ owned.leaves.flatMap Prod.snd, w'.bindings.get? b.key = some b.value := by
  obtain ⟨written, hrun, rfl⟩ := restrict_ok h
  obtain ⟨owned, hcs, rfl, hg, ho⟩ := traverse_owned hrun
  exact ⟨owned, hcs, rfl, ho, hg, hg.get?.1, hg.get?.2⟩

/-- A list of a column, a column that begins with the number of an element, and a key that was taken
before. -/
theorem restrict_owned_clashing :
    let d : Dialect := .ofFlavor .postgres
    let w := ((start 1).bind "where_x".toList (.text "before".toList)).2
    let cs : Conditions Condition :=
      .group .or (.leaf ⟨"x".toList, .many [.signed 1, .null]⟩ <|
        .leaf ⟨"0x >".toList, .one (.text "a".toList)⟩ .nil) <|
      .leaf ⟨"x".toList, .one (.text "t.c".toList)⟩ <|
      .leaf ⟨"x IS NOT NULL".toList, .one (.signed 5)⟩ <| .leaf ⟨"x".toList, .one (.signed 7)⟩ .nil
    ∃ text w', w.restrict d cs = (.ok text, w') ∧
      text = ("(\"x\" IN (:where_0x:, NULL) OR \"0x\" > ':where_0x3:') AND \"x\" = \"t\".\"c\" AND " ++
        "\"x\" IS NOT NULL AND \"x\" = :where_x4:").toList ∧
      ∃ own, w.bindings.Gains own w'.bindings ∧
        (∀ b ∈ own, w'.bindings.get? b.key = some b.value) ∧
        own = [⟨"where_0x".toList, .signed 1⟩, ⟨"where_1x".toList, .null⟩,
          ⟨"where_0x3".toList, .text "a".toList⟩, ⟨"where_x4".toList, .signed 7⟩] := by
  intro d w cs
  have hrun : w.restrict d cs = (.ok _, _) := rfl
  obtain ⟨owned, -, -, -, hg, -, hget⟩ := restrict_owned hrun
  refine ⟨_, _, hrun, by decide +kernel, _, hg, hget, ?_⟩
  exact List.append_cancel_left (hg.entries.symm.trans (by decide +kernel))

end Draft

end SqlForge
