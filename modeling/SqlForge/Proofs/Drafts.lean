import SqlForge.Draft
import SqlForge.Proofs.Conditions

/-!
# Conditions written piece by piece

A draft writes its conditions leaf by leaf, as they come; a statement writes a
template of all its clauses at the end. For conditions both ways give the same
text, the same bindings and the same error.
-/

namespace SqlForge

/-! ## Templates one after the other -/

namespace Template

variable (d : Dialect)

theorem write_append : ∀ (t u : Template) (bs : Bindings), write d (t ++ u) bs =
    ((t.write d bs).1 ++ (u.write d (t.write d bs).2).1, (u.write d (t.write d bs).2).2)
  | [], _, _ => rfl
  | .text s :: t, u, bs => by
    rw [List.cons_append, write, write, write_append t u bs]
    dsimp only
    rw [List.append_assoc]
  | .slot b :: t, u, bs => by
    rw [List.cons_append, write, write]
    dsimp only
    rw [write_append t u, List.append_assoc]

theorem write_join (sep : Text) : ∀ (ts : List Template) (bs : Bindings), (join sep ts).write d bs =
    (Text.join sep (writeAll d ts bs).1, (writeAll d ts bs).2)
  | [], _ => rfl
  | [t], bs => by
    rw [join_singleton]
    simp only [writeAll, Text.join, List.intercalate_singleton]
  | t :: u :: ts, bs => by
    have ih := write_join sep (u :: ts) (t.write d bs).2
    rw [join_cons_cons, write_append, write, ih]
    simp only [writeAll, Text.join, List.intercalate_cons_cons, List.append_assoc]

end Template

/-! ## Trees of templates -/

namespace Conditions

variable (d : Dialect)

def write : Conditions Template → Bindings → Conditions Text × Bindings
  | nil, bs => (nil, bs)
  | leaf t rest, bs =>
    let (s, bs) := t.write d bs
    let (rest, bs) := write rest bs
    (leaf s rest, bs)
  | group word inner rest, bs =>
    let (inner, bs) := write inner bs
    let (rest, bs) := write rest bs
    (group word inner rest, bs)

theorem leaves_write_eq_nil_iff : ∀ (ts : Conditions Template) (bs : Bindings),
    (ts.write d bs).1.leaves = [] ↔ ts.leaves = []
  | nil, _ => by simp [write, leaves]
  | leaf t rest, bs => by simp [write, leaves]
  | group word inner rest, bs => by
    rw [write, leaves, leaves, List.append_eq_nil_iff, List.append_eq_nil_iff,
      leaves_write_eq_nil_iff inner, leaves_write_eq_nil_iff rest]

theorem write_bracketed (word : Connective) (ts : List Template) (bs : Bindings) :
    (bracketed word ts).write d bs =
      (['('] ++ Text.join word.spaced (Template.writeAll d ts bs).1 ++ [')'],
        (Template.writeAll d ts bs).2) := by
  rw [bracketed, Template.write_append, Template.write_append, Template.ofText, Template.write,
    Template.write, Template.write_join]
  rfl

/-- The members of the written tree are the members, written one by one. -/
theorem writeAll_members : ∀ (ts : Conditions Template) (bs : Bindings),
    Template.writeAll d (ts.members Template.ofText) bs =
      ((ts.write d bs).1.members id, (ts.write d bs).2)
  | nil, _ => rfl
  | leaf t rest, bs => by
    rw [members, Template.writeAll, write]
    dsimp only
    rw [writeAll_members rest]
    rfl
  | group word inner rest, bs => by
    have hi := writeAll_members inner bs
    have hr := writeAll_members rest (inner.write d bs).2
    have hn : inner.members Template.ofText = [] ↔ (inner.write d bs).1.members id = [] := by
      rw [members_eq_nil_iff, members_eq_nil_iff, leaves_write_eq_nil_iff]
    rw [members_group, write]
    dsimp only
    rw [members_group]
    by_cases hm : inner.members Template.ofText = []
    · -- nothing is written for the group, so the rest finds the bindings as they were
      rw [hm] at hi
      rw [← (Prod.mk.inj hi).2] at hr ⊢
      rw [if_pos hm, if_pos (hn.mp hm)]
      exact hr
    · rw [if_neg hm, if_neg (mt hn.mpr hm)]
      change Template.writeAll d (bracketed word (inner.members Template.ofText) ::
        rest.members Template.ofText) bs = _
      rw [Template.writeAll, write_bracketed, hi]
      dsimp only
      rw [hr]
      rfl

section
variable {ε σ α β : Type} {x : ExceptT ε (StateM σ) α} {s s' : σ}

theorem run_bind_of_ok {a : α} (h : x.run s = (.ok a, s')) (f : α → ExceptT ε (StateM σ) β) :
    (x >>= f).run s = (f a).run s' := by
  change (match x.run s with | (r, s₁) => (ExceptT.bindCont f r) s₁) = _
  rw [h]
  rfl

theorem run_bind_of_error {e : ε} (h : x.run s = (.error e, s')) (f : α → ExceptT ε (StateM σ) β) :
    (x >>= f).run s = (.error e, s') := by
  change (match x.run s with | (r, s₁) => (ExceptT.bindCont f r) s₁) = _
  rw [h]
  rfl

theorem run_bind_ok {f : α → ExceptT ε (StateM σ) β} {b : β} (h : (x >>= f).run s = (.ok b, s')) :
    ∃ a s₁, x.run s = (.ok a, s₁) ∧ (f a).run s₁ = (.ok b, s') := by
  cases hx : x.run s with
  | mk r s₁ =>
    cases r with
    | error e =>
      rw [run_bind_of_error hx] at h
      cases h
    | ok a =>
      rw [run_bind_of_ok hx] at h
      exact ⟨a, s₁, rfl, h⟩

end

theorem run_condition (c : Condition) (bs : Bindings) : (Draft.condition d c).run bs =
    match d.condition c with
    | .ok t => (.ok (t.write d bs).1, (t.write d bs).2)
    | .error e => (.error e, bs) := by
  change Draft.condition d c bs = _
  unfold Draft.condition
  cases d.condition c with
  | ok t => rfl
  | error e => rfl

variable {d}

theorem run_traverse_condition : ∀ {cs : Conditions Condition} {ts : Conditions Template}
    (bs : Bindings), cs.traverse d.condition = .ok ts →
    (cs.traverse (Draft.condition d)).run bs = (.ok (ts.write d bs).1, (ts.write d bs).2)
  | nil, ts, bs, h => by
    cases h
    rfl
  | leaf c rest, ts, bs, h => by
    obtain ⟨t, ht, h⟩ := bind_ok h
    obtain ⟨ts', hr, h⟩ := bind_ok h
    cases h
    have hc := run_condition d c bs
    rw [ht] at hc
    rw [traverse, run_bind_of_ok hc, run_bind_of_ok (run_traverse_condition _ hr)]
    rfl
  | group word inner rest, ts, bs, h => by
    obtain ⟨ti, hi, h⟩ := bind_ok h
    obtain ⟨tr, hr, h⟩ := bind_ok h
    cases h
    rw [traverse, run_bind_of_ok (run_traverse_condition bs hi),
      run_bind_of_ok (run_traverse_condition _ hr)]
    rfl

theorem run_traverse_condition_error : ∀ {cs : Conditions Condition} {e : CommandError}
    (bs : Bindings), cs.traverse d.condition = .error e →
    ∃ bs', (cs.traverse (Draft.condition d)).run bs = (.error e, bs')
  | nil, e, bs, h => by cases h
  | leaf c rest, e, bs, h => by
    have hc := run_condition d c bs
    rcases bind_error h with h | ⟨t, ht, h⟩
    · rw [h] at hc
      exact ⟨bs, run_bind_of_error hc _⟩
    · rw [ht] at hc
      rcases bind_error h with h | ⟨ts, -, h⟩
      · obtain ⟨bs', hr⟩ := run_traverse_condition_error (t.write d bs).2 h
        exact ⟨bs', by rw [traverse, run_bind_of_ok hc, run_bind_of_error hr]⟩
      · cases h
  | group word inner rest, e, bs, h => by
    rcases bind_error h with h | ⟨ti, hi, h⟩
    · obtain ⟨bs', hr⟩ := run_traverse_condition_error bs h
      exact ⟨bs', run_bind_of_error hr _⟩
    · rcases bind_error h with h | ⟨tr, -, h⟩
      · obtain ⟨bs', hr⟩ := run_traverse_condition_error (ti.write d bs).2 h
        exact ⟨bs', by rw [traverse, run_bind_of_ok (run_traverse_condition bs hi),
          run_bind_of_error hr]⟩
      · cases h

end Conditions

/-! ## Drafts -/

/-- **A draft writes the conditions of a statement**: the template of their members, joined, and with
the same error if there is one. -/
theorem Draft.restrict_eq (d : Dialect) (w : Draft) (cs : Conditions Condition) :
    match d.conditions cs with
    | .ok ts =>
      let written := (Template.join Connective.and.spaced ts).write d w.bindings
      w.restrict d cs = (.ok written.1,
        { w with bindings := written.2, conditions := (Template.writeAll d ts w.bindings).1 })
    | .error e => (w.restrict d cs).1 = .error e := by
  unfold Dialect.conditions
  cases ht : cs.traverse d.condition with
  | ok ts =>
    have hrun := Conditions.run_traverse_condition w.bindings ht
    have hmembers := Conditions.writeAll_members d ts w.bindings
    simp only [Except.map]
    rw [Template.write_join, hmembers, restrict, hrun]
  | error e =>
    obtain ⟨bs, hrun⟩ := Conditions.run_traverse_condition_error w.bindings ht
    simp only [Except.map]
    rw [restrict, hrun]

end SqlForge
