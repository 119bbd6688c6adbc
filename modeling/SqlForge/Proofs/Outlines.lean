import SqlForge.Template
import SqlForge.Proofs.Texts

/-!
# Outlines

An outline is spelled by giving each slot a text. Its slots are apart if fixed
text with a separating character stands between any two of them; templates that
are joined keep this, because the texts between them separate.
-/

namespace SqlForge

namespace Outline

variable {α : Type}

/-- The text of an outline, where `f` spells what the slots hold. -/
def spell (f : α → Text) : Outline α → Text
  | [] => []
  | .text s :: o => s ++ spell f o
  | .slot a :: o => f a ++ spell f o

/-- What the slots hold, from left to right. -/
def slots : Outline α → List α
  | [] => []
  | .text _ :: o => slots o
  | .slot a :: o => a :: slots o

/-- The fixed texts have no colon, and between two slots some fixed text has a character for which
`sep` holds. A slot may stand at the head if `ready` holds. -/
def Apart (sep : Char → Prop) : Prop → Outline α → Prop
  | _, [] => True
  | ready, .text s :: o => ':' ∉ s ∧ Apart sep (ready ∨ ∃ c ∈ s, sep c) o
  | ready, .slot _ :: o => ready ∧ Apart sep False o

instance decidableApart (sep : Char → Prop) [DecidablePred sep] :
    ∀ (ready : Prop) [Decidable ready] (o : Outline α), Decidable (o.Apart sep ready)
  | _, _, [] => .isTrue trivial
  | ready, _, .text s :: o =>
    have : Decidable (∃ c ∈ s, sep c) := List.decidableBEx sep s
    have := decidableApart sep (ready ∨ ∃ c ∈ s, sep c) o
    inferInstanceAs (Decidable (':' ∉ s ∧ Apart sep (ready ∨ ∃ c ∈ s, sep c) o))
  | ready, _, .slot _ :: o =>
    have := decidableApart sep False o
    inferInstanceAs (Decidable (ready ∧ Apart sep False o))

theorem spell_congr {f g : α → Text} : ∀ {o : Outline α}, (∀ a ∈ o.slots, f a = g a) →
    o.spell f = o.spell g
  | [], _ => rfl
  | .text s :: o, h => congrArg (s ++ ·) (spell_congr (o := o) h)
  | .slot a :: o, h => by
    have ha := h a List.mem_cons_self
    have ho := spell_congr (o := o) fun b hb => h b (List.mem_cons_of_mem _ hb)
    rw [spell, spell, ha, ho]

theorem eq_nil_of_spell_eq_nil {f : α → Text} : ∀ {o : Outline α}, o.spell f = [] →
    ∀ a ∈ o.slots, f a = []
  | .text _ :: o, h, a, ha => eq_nil_of_spell_eq_nil (o := o) (List.append_eq_nil_iff.mp h).2 a ha
  | .slot b :: o, h, a, ha => by
    obtain ⟨hb, ho⟩ := List.append_eq_nil_iff.mp h
    rcases List.mem_cons.mp ha with rfl | ha
    · exact hb
    · exact eq_nil_of_spell_eq_nil ho a ha

/-! ## Outlines one after the other -/

theorem spell_append (f : α → Text) : ∀ o o' : Outline α, spell f (o ++ o') = o.spell f ++ o'.spell f
  | [], _ => rfl
  | .text s :: o, o' => by rw [List.cons_append, spell, spell_append f o, spell, List.append_assoc]
  | .slot a :: o, o' => by rw [List.cons_append, spell, spell_append f o, spell, List.append_assoc]

theorem slots_append : ∀ o o' : Outline α, slots (o ++ o') = o.slots ++ o'.slots
  | [], _ => rfl
  | .text _ :: o, o' => slots_append o o'
  | .slot a :: o, o' => congrArg (a :: ·) (slots_append o o')

theorem Apart.mono {sep : Char → Prop} : ∀ {o : Outline α} {p q : Prop}, (p → q) → o.Apart sep p →
    o.Apart sep q
  | [], _, _, _, _ => trivial
  | .text _ :: _, _, _, h, ⟨hs, ho⟩ => ⟨hs, ho.mono (Or.imp_left h)⟩
  | .slot _ :: _, _, _, h, ⟨hp, ho⟩ => ⟨h hp, ho⟩

theorem Apart.append {sep : Char → Prop} : ∀ {o o' : Outline α} {p : Prop}, o.Apart sep p →
    o'.Apart sep False → Apart sep p (o ++ o')
  | [], _, _, _, h' => h'.mono False.elim
  | .text _ :: _, _, _, ⟨hs, ho⟩, h' => ⟨hs, ho.append h'⟩
  | .slot _ :: _, _, _, ⟨hp, ho⟩, h' => ⟨hp, ho.append h'⟩

/-! ## Outlines with a text between them -/

theorem intercalate_cons_cons (sep : Text) (o o' : Outline α) (os : List (Outline α)) :
    List.intercalate [.text sep] (o :: o' :: os) =
      o ++ .text sep :: List.intercalate [.text sep] (o' :: os) := by
  rw [List.intercalate_cons_cons, List.append_assoc]
  rfl

theorem spell_intercalate (f : α → Text) (sep : Text) : ∀ os : List (Outline α),
    spell f (List.intercalate [.text sep] os) = Text.join sep (os.map (spell f))
  | [] => rfl
  | [o] => by
    rw [List.intercalate_singleton, List.map_singleton, Text.join, List.intercalate_singleton]
  | o :: o' :: os => by
    have ih := spell_intercalate f sep (o' :: os)
    rw [List.map_cons, Text.join] at ih
    rw [intercalate_cons_cons, spell_append, spell, ih, List.map_cons, List.map_cons, Text.join,
      List.intercalate_cons_cons, List.append_assoc]

theorem slots_intercalate (sep : Text) : ∀ os : List (Outline α),
    slots (List.intercalate [.text sep] os) = os.flatMap slots
  | [] => rfl
  | [o] => by rw [List.intercalate_singleton, List.flatMap_singleton]
  | o :: o' :: os => by
    rw [intercalate_cons_cons, slots_append, slots, slots_intercalate sep (o' :: os),
      ← List.flatMap_cons]

end Outline

namespace Template

/-! ## Templates with a text between them -/

theorem join_cons_cons (sep : Text) (t u : Template) (ts : List Template) :
    join sep (t :: u :: ts) = t ++ .text sep :: join sep (u :: ts) :=
  Outline.intercalate_cons_cons sep t u ts

theorem join_singleton (sep : Text) (t : Template) : join sep [t] = t :=
  List.intercalate_singleton

theorem spell_join (f : Binding → Text) (sep : Text) (ts : List Template) :
    (join sep ts).spell f = Text.join sep (ts.map (·.spell f)) :=
  Outline.spell_intercalate f sep ts

theorem slots_join (sep : Text) (ts : List Template) : (join sep ts).slots = ts.flatMap (·.slots) :=
  Outline.slots_intercalate sep ts

theorem apart_join {sep : Char → Prop} {s : Text} (hs : ':' ∉ s) (hsep : ∃ c ∈ s, sep c) :
    ∀ {ts : List Template}, (∀ t ∈ ts, t.Apart sep True) → (join s ts).Apart sep True
  | [], _ => trivial
  | [t], h => by
    rw [join_singleton]
    exact h t List.mem_cons_self
  | t :: u :: ts, h => by
    have ih := apart_join hs hsep fun t' ht' => h t' (List.mem_cons_of_mem t ht')
    rw [join_cons_cons]
    exact (h t List.mem_cons_self).append ⟨hs, ih.mono fun _ => .inr hsep⟩

/-! ## Rows of slots -/

/-- Slots with commas between them. -/
def row (bs : List Binding) : Template := join ", ".toList (bs.map fun b => [.slot b])

theorem row_cons_cons (b c : Binding) (l : List Binding) :
    row (b :: c :: l) = .slot b :: .text ", ".toList :: row (c :: l) := by
  rw [row, List.map_cons, List.map_cons, join_cons_cons]
  rfl

theorem slots_row (l : List Binding) : (row l).slots = l := by
  rw [row, slots_join, List.flatMap_map]
  exact List.flatMap_singleton' l

theorem spell_row (f : Binding → Text) (l : List Binding) :
    (row l).spell f = Text.join ", ".toList (l.map f) := by
  rw [row, spell_join, List.map_map]
  congr 1
  exact List.map_congr_left fun b _ => List.append_nil _

theorem apart_row {sep : Char → Prop} (hsep : sep ',') (l : List Binding) :
    (row l).Apart sep True := by
  apply apart_join (by decide) ⟨',', by decide, hsep⟩
  intro t ht
  obtain ⟨b, -, rfl⟩ := List.mem_map.mp ht
  exact ⟨trivial, trivial⟩

/-- A row behind a text that opens a bracket for it. -/
def closedRow (head : Text) (l : List Binding) : Template := .text head :: (row l ++ [.text [')']])

theorem slots_closedRow (head : Text) (l : List Binding) : (closedRow head l).slots = l := by
  rw [closedRow, Outline.slots, Outline.slots_append, slots_row]
  exact List.append_nil l

theorem spell_closedRow (f : Binding → Text) (head : Text) (l : List Binding) :
    (closedRow head l).spell f = head ++ (Text.join ", ".toList (l.map f) ++ [')']) := by
  rw [closedRow, Outline.spell, Outline.spell_append, spell_row]
  rfl

theorem apart_closedRow {sep : Char → Prop} (hsep : sep ',') {head : Text} (hh : ':' ∉ head)
    (l : List Binding) : (closedRow head l).Apart sep True := by
  have hclose : Outline.Apart sep False ([.text [')']] : Template) := ⟨by decide, trivial⟩
  exact ⟨hh, ((apart_row hsep l).append hclose).mono .inl⟩

end Template

end SqlForge
