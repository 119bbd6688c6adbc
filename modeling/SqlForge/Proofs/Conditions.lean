import SqlForge.Condition.Written
import SqlForge.Proofs.Rendering

/-!
# Conditions at once

The members of a tree of conditions are the same whether its leaves are written
as templates or as finished texts. Every leaf keeps its slots apart and asks
for keys that are names, so the literals of its values can stand in at once.
-/

namespace SqlForge

/-! ## Trees -/

namespace Conditions

variable {α β γ : Type}

def map (f : α → β) : Conditions α → Conditions β
  | nil => nil
  | leaf a rest => leaf (f a) (map f rest)
  | group word inner rest => group word (map f inner) (map f rest)

/-- The leaves at any depth, from left to right. -/
def leaves : Conditions α → List α
  | nil => []
  | leaf a rest => a :: leaves rest
  | group _ inner rest => leaves inner ++ leaves rest

theorem bind_ok {ε : Type} {x : Except ε α} {f : α → Except ε β} {b : β} (h : x >>= f = .ok b) :
    ∃ a, x = .ok a ∧ f a = .ok b := by
  cases x with
  | error e => cases h
  | ok a => exact ⟨a, rfl, h⟩

theorem bind_error {ε : Type} {x : Except ε α} {f : α → Except ε β} {e : ε} (h : x >>= f = .error e) :
    x = .error e ∨ ∃ a, x = .ok a ∧ f a = .error e := by
  cases x with
  | error e' =>
    cases h
    exact .inl rfl
  | ok a => exact .inr ⟨a, rfl, h⟩

/-- Each leaf of the visited tree comes of the leaf at its place. -/
theorem traverse_ok {ε : Type} {f : α → Except ε β} {g : β → γ} {h : α → γ} {P : β → Prop} :
    ∀ {cs : Conditions α} {cs' : Conditions β},
      (∀ a ∈ cs.leaves, ∀ b, f a = .ok b → g b = h a ∧ P b) → cs.traverse f = .ok cs' →
      cs'.map g = cs.map h ∧ ∀ b ∈ cs'.leaves, P b
  | nil, cs', _, ht => by
    cases ht
    exact ⟨rfl, fun b hb => by cases hb⟩
  | leaf a rest, cs', hf, ht => by
    rw [traverse] at ht
    obtain ⟨b, hb, ht⟩ := bind_ok ht
    obtain ⟨rest', hr, ht⟩ := bind_ok ht
    cases ht
    obtain ⟨hg, hp⟩ := hf a List.mem_cons_self b hb
    obtain ⟨hm, hl⟩ := traverse_ok (fun a' ha' => hf a' (List.mem_cons_of_mem a ha')) hr
    refine ⟨?_, ?_⟩
    · rw [map, map, hg, hm]
    · intro c hc
      rcases List.mem_cons.mp hc with rfl | hc
      · exact hp
      · exact hl c hc
  | group word inner rest, cs', hf, ht => by
    rw [traverse] at ht
    obtain ⟨inner', hi, ht⟩ := bind_ok ht
    obtain ⟨rest', hr, ht⟩ := bind_ok ht
    cases ht
    obtain ⟨hmi, hli⟩ := traverse_ok (fun a ha => hf a (List.mem_append_left _ ha)) hi
    obtain ⟨hmr, hlr⟩ := traverse_ok (fun a ha => hf a (List.mem_append_right _ ha)) hr
    refine ⟨?_, ?_⟩
    · rw [map, map, hmi, hmr]
    · intro c hc
      rcases List.mem_append.mp hc with hc | hc
      · exact hli c hc
      · exact hlr c hc

theorem traverse_error {ε : Type} {f : α → Except ε β} {P : ε → Prop} (hf : ∀ a e, f a = .error e → P e) :
    ∀ {cs : Conditions α} {e : ε}, cs.traverse f = .error e → P e
  | nil, e, h => by cases h
  | leaf a rest, e, h => by
    rw [traverse] at h
    rcases bind_error h with h | ⟨b, -, h⟩
    · exact hf a e h
    · rcases bind_error h with h | ⟨rest', -, h⟩
      · exact traverse_error hf h
      · cases h
  | group word inner rest, e, h => by
    rw [traverse] at h
    rcases bind_error h with h | ⟨inner', -, h⟩
    · exact traverse_error hf h
    · rcases bind_error h with h | ⟨rest', -, h⟩
      · exact traverse_error hf h
      · cases h

theorem leaves_map (f : α → β) : ∀ cs : Conditions α, (cs.map f).leaves = cs.leaves.map f
  | nil => rfl
  | leaf a rest => congrArg (f a :: ·) (leaves_map f rest)
  | group _ inner rest => by
    rw [map, leaves, leaves_map f inner, leaves_map f rest, leaves, List.map_append]

theorem map_map (f : α → β) (g : β → γ) : ∀ cs : Conditions α,
    (cs.map f).map g = cs.map fun a => g (f a)
  | nil => rfl
  | leaf a rest => congrArg (leaf (g (f a)) ·) (map_map f g rest)
  | group word inner rest => congrArg₂ (group word) (map_map f g inner) (map_map f g rest)

/-! ## Members -/

theorem members_group (lit : Text → List β) (word : Connective) (inner rest : Conditions (List β)) :
    (group word inner rest).members lit =
      if inner.members lit = [] then rest.members lit
      else (lit ['('] ++ (lit word.spaced).intercalate (inner.members lit) ++ lit [')']) ::
        rest.members lit := by
  rw [members]
  cases inner.members lit with
  | nil => rfl
  | cons b bs => rfl

/-- A tree has members if it has a leaf at any depth. -/
theorem members_eq_nil_iff (lit : Text → List β) : ∀ cs : Conditions (List β),
    cs.members lit = [] ↔ cs.leaves = []
  | nil => Iff.rfl
  | leaf b rest => by simp [members, leaves]
  | group word inner rest => by
    have hi := members_eq_nil_iff lit inner
    have hr := members_eq_nil_iff lit rest
    rw [members_group, leaves, List.append_eq_nil_iff, ← hi, ← hr]
    by_cases hn : inner.members lit = []
    · simp [hn]
    · simp [hn]

/-- The members, spelled, are those of the spelled tree. -/
theorem spell_members (f : α → Text) : ∀ cs : Conditions (Outline α),
    (cs.members fun s => [.text s]).map (Outline.spell f) = (cs.map (Outline.spell f)).members id
  | nil => rfl
  | leaf o rest => congrArg (o.spell f :: ·) (spell_members f rest)
  | group word inner rest => by
    have hi := spell_members f inner
    have hr := spell_members f rest
    have hn : (inner.members fun s => [.text s]) = [] ↔ (inner.map (Outline.spell f)).members id = [] := by
      rw [← hi, List.map_eq_nil_iff]
    rw [map, members_group, members_group, ← hr]
    by_cases hm : (inner.members fun s => [.text s]) = []
    · rw [if_pos hm, if_pos (hn.mp hm)]
    · rw [if_neg hm, if_neg (mt hn.mpr hm), List.map_cons, Outline.spell_append, Outline.spell_append,
        Outline.spell_intercalate, hi]
      rfl

theorem slots_members : ∀ cs : Conditions (Outline α),
    (cs.members fun s => [.text s]).flatMap Outline.slots = cs.leaves.flatMap Outline.slots
  | nil => rfl
  | leaf o rest => by
    rw [members, leaves, List.flatMap_cons, List.flatMap_cons, slots_members rest]
  | group word inner rest => by
    have hi := slots_members inner
    have hr := slots_members rest
    rw [members_group, leaves, List.flatMap_append, ← hi, ← hr]
    by_cases hm : (inner.members fun s => [.text s]) = []
    · rw [if_pos hm, hm]
      rfl
    · rw [if_neg hm, List.flatMap_cons, Outline.slots_append, Outline.slots_append,
        Outline.slots_intercalate]
      simp [Outline.slots]

/-! ## Members of a tree of templates -/

/-- A group between its brackets. -/
def bracketed (word : Connective) (ts : List Template) : Template :=
  Template.ofText ['('] ++ Template.join word.spaced ts ++ Template.ofText [')']

theorem fit_bracketed {d : Dialect} (word : Connective) {ts : List Template}
    (h : ∀ t ∈ ts, Template.Fit d t) : Template.Fit d (bracketed word ts) := by
  have hw : ':' ∉ word.spaced := by cases word <;> decide
  have hs : ' ' ∈ word.spaced := List.mem_append_left _ List.mem_cons_self
  have hj := Template.Fit.join hw ⟨' ', hs, rfl⟩ h
  have hclose : Outline.Apart (fun c => isWordChar c = false) False (Template.ofText [')']) :=
    ⟨by decide, trivial⟩
  refine ⟨⟨by decide, (hj.apart.append hclose).mono .inl⟩, ?_⟩
  intro b hb
  rw [bracketed, Outline.slots_append, Outline.slots_append] at hb
  simp only [Template.ofText, Outline.slots, List.nil_append, List.append_nil] at hb
  exact hj.slots b hb

theorem fit_members {d : Dialect} : ∀ {cs : Conditions Template},
    (∀ t ∈ cs.leaves, Template.Fit d t) → ∀ t ∈ cs.members Template.ofText, Template.Fit d t
  | nil, _, t, ht => by cases ht
  | leaf a rest, h, t, ht => by
    rcases List.mem_cons.mp ht with rfl | ht
    · exact h t List.mem_cons_self
    · exact fit_members (fun t' ht' => h t' (List.mem_cons_of_mem a ht')) t ht
  | group word inner rest, h, t, ht => by
    have hi := fit_members fun t' ht' => h t' (List.mem_append_left rest.leaves ht')
    have hr := fit_members fun t' ht' => h t' (List.mem_append_right inner.leaves ht')
    rw [members_group] at ht
    by_cases hn : inner.members Template.ofText = []
    · rw [if_pos hn] at ht
      exact hr t ht
    · rw [if_neg hn] at ht
      rcases List.mem_cons.mp ht with rfl | ht
      · exact fit_bracketed word hi
      · exact hr t ht

end Conditions

/-! ## Conditions with their literals -/

/-- The values whose literals stand in the text of a condition. -/
def Condition.values (c : Condition) : List Value :=
  match c.comparand with
  | .one v => if v.columnReference? = none ∧ (Operator.ofKey c.key).2.testsNull = false then [v] else []
  | .many vs => vs

namespace Dialect

def comparisonText (d : Dialect) (column : Text) (op : Operator) (v : Value) : Text :=
  let left := d.quote column ++ ' ' :: op.keyword
  match v.columnReference? with
  | some other => left ++ ' ' :: d.quote other
  | none => if op.testsNull then left else left ++ ' ' :: d.lit v

def membershipText (d : Dialect) (column : Text) (op : Operator) (vs : List Value) : Text :=
  if vs.isEmpty then (if op.isNegative then "0 = 0" else "0 = 1").toList
  else d.quote column ++ ' ' :: op.forList.keyword ++ " (".toList ++
    (Text.join ", ".toList (vs.map d.lit) ++ [')'])

/-- A condition whose values are rendered in their places. -/
def conditionText (d : Dialect) (c : Condition) : Text :=
  match c.comparand with
  | .one v => d.comparisonText (Operator.ofKey c.key).1 (Operator.ofKey c.key).2 v
  | .many vs => d.membershipText (Operator.ofKey c.key).1 (Operator.ofKey c.key).2 vs

/-- The column is a name, and the literals of the values spell no placeholder of a name. -/
def Suits (d : Dialect) (c : Condition) : Prop :=
  isName (Operator.ofKey c.key).1 = true ∧ ∀ v ∈ c.values, d.Quiet v

instance (d : Dialect) (c : Condition) : Decidable (d.Suits c) :=
  inferInstanceAs (Decidable (_ ∧ ∀ v ∈ c.values, d.Quiet v))

variable (d : Dialect)

theorem colon_not_mem_left {column : Text} (hc : isWord column = true) (op : Operator) :
    ':' ∉ d.quote column ++ ' ' :: op.keyword := by
  have hq : ':' ∉ d.quote column := colon_not_mem_quote d.flavor (not_mem_of_isWord hc rfl)
  have ho : ':' ∉ op.keyword := by cases op <;> decide
  simp [hq, ho]

theorem colon_not_mem_reference {v : Value} {other : Text} (h : v.columnReference? = some other) :
    ':' ∉ d.quote other := by
  apply colon_not_mem_quote
  cases v with
  | text s =>
    simp only [Value.columnReference?] at h
    split at h
    · rename_i hr
      cases h
      obtain ⟨table, column, rfl, ht, hc⟩ := isColumnReference_iff.mp hr
      simp [not_mem_of_isWord ht (x := ':') rfl, not_mem_of_isWord hc (x := ':') rfl]
    · cases h
  | _ => cases h

theorem isName_where {s : Text} (h : ∀ c ∈ s, isWordChar c = true) :
    isName ("where_".toList ++ s) = true := isName_append (by decide) h

theorem fit_comparison {column : Text} {op : Operator} {v : Value} (hc : isWord column = true)
    (hv : v.columnReference? = none → op.testsNull = false → d.Quiet v) :
    Template.Fit d (d.comparison column op v) := by
  have hl := d.colon_not_mem_left hc op
  unfold comparison
  cases hr : v.columnReference? with
  | some other =>
    have ho := d.colon_not_mem_reference hr
    apply Template.Fit.ofText
    simp at hl
    simp [hl, ho]
  | none =>
    by_cases ht : op.testsNull = true
    · simp only [ht]
      exact Template.Fit.ofText hl
    · have hq := hv hr (by simpa using ht)
      have hk : isName ("where_".toList ++ column) = true :=
        isName_where fun x hx => isWordChar_of_mem hc hx
      simp only [ht]
      refine Template.Fit.slot ?_ hk hq
      simp at hl
      simp [hl]

theorem inline_comparison (column : Text) (op : Operator) (v : Value) :
    (d.comparison column op v).inline d = d.comparisonText column op v := by
  unfold comparison comparisonText
  cases v.columnReference? with
  | some other => simp [Template.inline, Template.ofText, Outline.spell]
  | none =>
    by_cases ht : op.testsNull = true
    · simp [ht, Template.inline, Template.ofText, Outline.spell]
    · simp [ht, Template.inline, Outline.spell]

theorem membership_eq (column : Text) (op : Operator) {vs : List Value} (h : vs ≠ []) :
    d.membership column op vs =
      Template.closedRow (d.quote column ++ ' ' :: op.forList.keyword ++ " (".toList)
        (vs.zipIdx.map fun (v, i) => ⟨"where_".toList ++ Text.natural i ++ column, v⟩) := by
  have he : vs.isEmpty = false := by simpa using h
  rw [membership, he, Template.closedRow, Template.row, List.map_map]
  rfl

theorem fit_membership {column : Text} {op : Operator} {vs : List Value} (hc : isWord column = true)
    (hv : ∀ v ∈ vs, d.Quiet v) : Template.Fit d (d.membership column op vs) := by
  by_cases hn : vs = []
  · subst hn
    apply Template.Fit.ofText
    cases op <;> decide
  · have hl := d.colon_not_mem_left hc op.forList
    have hp : ':' ∉ " (".toList := by decide
    rw [membership_eq d column op hn]
    refine Template.Fit.closedRow (by rw [List.mem_append]; exact fun h => h.elim hl hp) ?_
    intro b hb
    obtain ⟨⟨v, i⟩, hm, rfl⟩ := List.mem_map.mp hb
    refine ⟨?_, hv v (List.fst_mem_of_mem_zipIdx hm)⟩
    change isName ("where_".toList ++ Text.natural i ++ column) = true
    rw [List.append_assoc]
    apply isName_where
    intro x hx
    rcases List.mem_append.mp hx with hx | hx
    · exact isWordChar_of_isDigit (Text.isDigit_of_mem_natural hx)
    · exact isWordChar_of_mem hc hx

theorem inline_membership (column : Text) (op : Operator) (vs : List Value) :
    (d.membership column op vs).inline d = d.membershipText column op vs := by
  by_cases hn : vs = []
  · subst hn
    cases op <;> rfl
  · have he : vs.isEmpty = false := by simpa using hn
    have hz : (vs.zipIdx.map fun p => d.lit p.1) = vs.map d.lit := by
      have := congrArg (List.map d.lit) (List.zipIdx_map_fst 0 vs)
      rwa [List.map_map] at this
    rw [membership_eq d column op hn, Template.inline, Template.spell_closedRow, List.map_map,
      membershipText, he]
    exact congrArg (fun ts => _ ++ (Text.join ", ".toList ts ++ [')'])) hz

theorem word_of_suits {c : Condition} (h : d.Suits c) :
    isWord (Operator.ofKey c.key).1 = true ∧ ∀ v ∈ c.values, d.Quiet v := ⟨isWord_of_isName h.1, h.2⟩

theorem condition_ok {c : Condition} {t : Template} (hn : isWord (Operator.ofKey c.key).1 = true)
    (hq : ∀ v ∈ c.values, d.Quiet v) (h : d.condition c = .ok t) :
    t.inline d = d.conditionText c ∧ Template.Fit d t := by
  unfold condition at h
  unfold Condition.values at hq
  unfold conditionText
  dsimp only at h
  split at h
  · cases h
  · cases hcmp : c.comparand with
    | one v =>
      rw [hcmp] at h hq
      cases h
      refine ⟨d.inline_comparison _ _ _, d.fit_comparison hn fun hr ht => ?_⟩
      exact hq v (by simp [hr, ht])
    | many vs =>
      rw [hcmp] at h hq
      cases h
      exact ⟨d.inline_membership _ _ _, d.fit_membership hn hq⟩

/-- **Members at once.** The members of a tree of conditions, with literals in place of their slots,
are those of the tree of finished texts. -/
theorem conditions_ok {cs : Conditions Condition} {ts : List Template}
    (hcs : ∀ c ∈ cs.leaves, isWord (Operator.ofKey c.key).1 = true ∧ ∀ v ∈ c.values, d.Quiet v)
    (h : d.conditions cs = .ok ts) :
    ts.map (Template.inline d) = (cs.map d.conditionText).members id ∧
      ∀ t ∈ ts, Template.Fit d t := by
  unfold conditions at h
  cases ht : cs.traverse d.condition with
  | error e =>
    rw [ht] at h
    cases h
  | ok cs' =>
    rw [ht] at h
    cases h
    obtain ⟨hm, hf⟩ := Conditions.traverse_ok (fun c hc t => d.condition_ok (hcs c hc).1 (hcs c hc).2) ht
    refine ⟨?_, Conditions.fit_members hf⟩
    rw [← hm]
    exact Conditions.spell_members _ cs'

end Dialect

end SqlForge
