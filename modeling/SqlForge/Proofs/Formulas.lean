import SqlForge.Condition.Tree
import SqlForge.Proofs.Outlines
import Mathlib.Data.List.Forall2

/-!
# Formulas of `AND` and `OR`

How SQL reads a text in which atoms stand between brackets and connectives:
brackets first, then `AND`, then `OR`. The grammar is unambiguous, because a
reader that goes from left to right meets every derivation in the same way; and
atoms that do not begin like a sign can be told from the signs around them, so a
text has at most one reading.
-/

namespace SqlForge

/-- The atoms are known by their numbers. -/
inductive Formula where
  | atom (i : Nat)
  | joined (word : Connective) (left right : Formula)
  deriving DecidableEq, Repr

def Connective.apply : Connective → Bool → Bool → Bool
  | and, a, b => a && b
  | or, a, b => a || b

namespace Formula

def holds (σ : Nat → Bool) : Formula → Bool
  | atom i => σ i
  | joined word f g => word.apply (f.holds σ) (g.holds σ)

/-! ## The grammar -/

inductive Rank where
  | operand
  | conjunction
  | disjunction

inductive Spelled : Rank → Outline Nat → Formula → Prop
  | atom (i : Nat) : Spelled .operand [.slot i] (.atom i)
  | bracketed {o : Outline Nat} {f : Formula} (h : Spelled .disjunction o f) :
      Spelled .operand (.text ['('] :: (o ++ [.text [')']])) f
  | operand {o : Outline Nat} {f : Formula} (h : Spelled .operand o f) : Spelled .conjunction o f
  | and {o o' : Outline Nat} {f g : Formula} (h : Spelled .conjunction o f)
      (h' : Spelled .operand o' g) :
      Spelled .conjunction (o ++ .text Connective.and.spaced :: o') (.joined .and f g)
  | conjunction {o : Outline Nat} {f : Formula} (h : Spelled .conjunction o f) :
      Spelled .disjunction o f
  | or {o o' : Outline Nat} {f g : Formula} (h : Spelled .disjunction o f)
      (h' : Spelled .conjunction o' g) :
      Spelled .disjunction (o ++ .text Connective.or.spaced :: o') (.joined .or f g)

/-! ## Reading from left to right -/

/-- What has been read between two brackets: the disjunction of the conjunctions that are finished,
and the conjunction that has begun. -/
inductive Reading where
  | awaiting (sum product : Option Formula)
  | complete (sum : Option Formula) (product : Formula)

/-- The reading between the brackets that opened last, and those that wait for it to close. -/
structure Reader where
  now : Reading
  outer : List (Option Formula × Option Formula)

def behind (word : Connective) : Option Formula → Formula → Formula
  | none, f => f
  | some e, f => joined word e f

namespace Reader

def step : Reader → Piece Nat → Option Reader
  | ⟨.awaiting sum product, outer⟩, .slot i =>
    some ⟨.complete sum (behind .and product (.atom i)), outer⟩
  | ⟨.awaiting sum product, outer⟩, .text s =>
    if s = ['('] then some ⟨.awaiting none none, (sum, product) :: outer⟩ else none
  | ⟨.complete _ _, _⟩, .slot _ => none
  | ⟨.complete sum product, outer⟩, .text s =>
    if s = Connective.and.spaced then some ⟨.awaiting sum (some product), outer⟩
    else if s = Connective.or.spaced then
      some ⟨.awaiting (some (behind .or sum product)) none, outer⟩
    else
      match outer with
      | (sum', product') :: outer =>
        if s = [')'] then
          some ⟨.complete sum' (behind .and product' (behind .or sum product)), outer⟩
        else none
      | [] => none

def run : Reader → Outline Nat → Option Reader
  | r, [] => some r
  | r, p :: o => (r.step p).bind fun r => run r o

def result? : Reader → Option Formula
  | ⟨.complete sum product, []⟩ => some (behind .or sum product)
  | _ => none

theorem run_cons {r r' : Reader} {p : Piece Nat} (h : r.step p = some r') (o : Outline Nat) :
    r.run (p :: o) = r'.run o := by
  rw [run, h, Option.bind_some]

theorem run_append : ∀ {o : Outline Nat} {r r' : Reader}, r.run o = some r' → ∀ o' : Outline Nat,
    r.run (o ++ o') = r'.run o'
  | [], r, r', h, o' => by
    cases h
    rfl
  | p :: o, r, r', h, o' => by
    obtain ⟨r₁, hp, h⟩ := Option.bind_eq_some_iff.mp h
    rw [List.cons_append, run_cons hp, run_append h]

end Reader

/-- The formula that an outline spells, read from left to right. -/
def ofOutline? (o : Outline Nat) : Option Formula :=
  (Reader.run ⟨.awaiting none none, []⟩ o).bind Reader.result?

/-- Where a reader stands behind the outline of `f`, from which it goes on to what follows. -/
def Met (o : Outline Nat) (f : Formula) : Rank → Prop
  | .operand => ∀ sum product outer, Reader.run ⟨.awaiting sum product, outer⟩ o =
      some ⟨.complete sum (behind .and product f), outer⟩
  | .conjunction => ∀ sum outer, Reader.run ⟨.awaiting sum none, outer⟩ o =
      some ⟨.complete sum f, outer⟩
  | .disjunction => ∃ sum product, behind .or sum product = f ∧
      ∀ outer, Reader.run ⟨.awaiting none none, outer⟩ o = some ⟨.complete sum product, outer⟩

theorem Spelled.met {r : Rank} {o : Outline Nat} {f : Formula} (h : Spelled r o f) : Met o f r := by
  induction h with
  | atom i => exact fun _ _ _ => rfl
  | bracketed _ ih =>
    -- what is open outside waits until the bracket closes, and the inside starts afresh
    obtain ⟨sum', product', rfl, ih⟩ := ih
    intro sum product outer
    have hopen : Reader.step ⟨.awaiting sum product, outer⟩ (.text ['(']) =
        some ⟨.awaiting none none, (sum, product) :: outer⟩ := rfl
    rw [Reader.run_cons hopen, Reader.run_append (ih _)]
    rfl
  | operand _ ih => exact fun sum outer => ih sum none outer
  | and _ _ ih ih' =>
    intro sum outer
    rw [Reader.run_append (ih sum outer), Reader.run_cons rfl]
    exact ih' sum _ outer
  | @conjunction o f _ ih => exact ⟨none, f, rfl, ih none⟩
  | @or o o' f g _ _ ih ih' =>
    -- at `OR` the conjunction that has begun is finished and joins the disjunction
    obtain ⟨sum, product, rfl, ih⟩ := ih
    refine ⟨some (behind .or sum product), g, rfl, fun outer => ?_⟩
    rw [Reader.run_append (ih outer), Reader.run_cons rfl]
    exact ih' _ outer

theorem Spelled.ofOutline? {o : Outline Nat} {f : Formula} (h : Spelled .disjunction o f) :
    ofOutline? o = some f := by
  obtain ⟨sum, product, rfl, hr⟩ := h.met
  rw [Formula.ofOutline?, hr]
  rfl

/-- **The grammar is unambiguous.** -/
theorem Spelled.unique {o : Outline Nat} {f g : Formula} (hf : Spelled .disjunction o f)
    (hg : Spelled .disjunction o g) : f = g :=
  Option.some.inj (hf.ofOutline?.symm.trans hg.ofOutline?)

/-! ## Operands with one connective between them -/

def rankOf : Connective → Rank
  | .and => .conjunction
  | .or => .disjunction

theorem Spelled.snoc {word : Connective} {o o' : Outline Nat} {f g : Formula}
    (h : Spelled (rankOf word) o f) (h' : Spelled .operand o' g) :
    Spelled (rankOf word) (o ++ .text word.spaced :: o') (.joined word f g) := by
  cases word with
  | and => exact h.and h'
  | or => exact h.or h'.operand

theorem Spelled.disjunction_of_rankOf {word : Connective} {o : Outline Nat} {f : Formula}
    (h : Spelled (rankOf word) o f) : Spelled .disjunction o f := by
  cases word with
  | and => exact h.conjunction
  | or => exact h

theorem Spelled.rankOf_of_operand (word : Connective) {o : Outline Nat} {f : Formula}
    (h : Spelled .operand o f) : Spelled (rankOf word) o f := by
  cases word with
  | and => exact h.operand
  | or => exact h.operand.conjunction

theorem Spelled.intercalate {word : Connective} {os : List (Outline Nat)} {fs : List Formula}
    (hs : List.Forall₂ (Spelled .operand) os fs) : ∀ {o : Outline Nat} {f : Formula},
    Spelled (rankOf word) o f →
    Spelled (rankOf word) (List.intercalate [.text word.spaced] (o :: os))
      (fs.foldl (.joined word) f) := by
  induction hs with
  | nil =>
    intro o f h
    rwa [List.intercalate_singleton]
  | @cons o' g os fs h' _ ih =>
    intro o f h
    -- the first two operands are one longer operand of the rank of the row
    have e : List.intercalate [Piece.text word.spaced] ((o ++ .text word.spaced :: o') :: os) =
        List.intercalate [.text word.spaced] (o :: o' :: os) := by
      cases os with
      | nil => simp [List.intercalate_singleton, List.intercalate_cons_cons]
      | cons o'' os => simp [List.intercalate_cons_cons]
    rw [← e]
    exact ih (h.snoc h')

theorem Spelled.row (word : Connective) {o : Outline Nat} {os : List (Outline Nat)} {f : Formula}
    {fs : List Formula} (h : List.Forall₂ (Spelled .operand) (o :: os) (f :: fs)) :
    Spelled .disjunction (List.intercalate [.text word.spaced] (o :: os))
      (fs.foldl (.joined word) f) := by
  obtain ⟨ho, hs⟩ := List.forall₂_cons.mp h
  exact (Spelled.intercalate hs (ho.rankOf_of_operand word)).disjunction_of_rankOf

/-! ## Reading a text -/

/-- `text` is spelled with `fragments` for the atoms, each once and from left to right. -/
def Reads (fragments : List Text) (text : Text) (f : Formula) : Prop :=
  ∃ o : Outline Nat, o.slots = List.range fragments.length ∧
    o.spell (fun i => fragments[i]?.getD []) = text ∧ Spelled .disjunction o f

def signs : List Text := [['('], [')'], Connective.and.spaced, Connective.or.spaced]

/-- The first character of `s` begins no sign. -/
def Stands (s : Text) : Prop := ∃ c t, s = c :: t ∧ c ∉ ['(', ')', ' ']

theorem mem_signs_of_joined (word : Connective) {o o' : Outline Nat}
    (h : ∀ s, .text s ∈ o → s ∈ signs) (h' : ∀ s, .text s ∈ o' → s ∈ signs) :
    ∀ s, .text s ∈ o ++ .text word.spaced :: o' → s ∈ signs := by
  intro s hs
  simp only [List.mem_cons, List.mem_append, Piece.text.injEq] at hs
  rcases hs with hs | rfl | hs
  · exact h s hs
  · cases word <;> simp [signs]
  · exact h' s hs

theorem Spelled.text_mem_signs {r : Rank} {o : Outline Nat} {f : Formula} (h : Spelled r o f) :
    ∀ s, .text s ∈ o → s ∈ signs := by
  induction h with
  | atom i => simp
  | bracketed _ ih =>
    intro s hs
    simp only [List.mem_cons, List.mem_append, Piece.text.injEq, List.not_mem_nil, or_false] at hs
    rcases hs with rfl | hs | rfl
    · simp [signs]
    · exact ih s hs
    · simp [signs]
  | operand _ ih => exact ih
  | conjunction _ ih => exact ih
  | and _ _ ih ih' => exact mem_signs_of_joined .and ih ih'
  | or _ _ ih ih' => exact mem_signs_of_joined .or ih ih'

/-- No sign begins another one. -/
theorem sign_eq_of_append_eq {s s' a b : Text} (hs : s ∈ signs) (hs' : s' ∈ signs)
    (h : s ++ a = s' ++ b) : s = s' := by
  simp only [signs, List.mem_cons, List.not_mem_nil, or_false] at hs hs'
  rcases hs with rfl | rfl | rfl | rfl <;> rcases hs' with rfl | rfl | rfl | rfl <;>
    simp_all [Connective.spaced, Connective.keyword]

theorem not_stands_of_sign {s : Text} (hs : s ∈ signs) (a : Text) : ¬ Stands (s ++ a) := by
  rintro ⟨c, t, e, hc⟩
  simp only [signs, List.mem_cons, List.not_mem_nil, or_false] at hs
  rcases hs with rfl | rfl | rfl | rfl <;> cases e <;> simp at hc

theorem Stands.ne_nil {s : Text} (h : Stands s) : s ≠ [] := by
  obtain ⟨c, t, rfl, -⟩ := h
  exact List.cons_ne_nil c t

theorem Stands.append {s : Text} (h : Stands s) (t : Text) : Stands (s ++ t) := by
  obtain ⟨c, s, rfl, hc⟩ := h
  exact ⟨c, s ++ t, rfl, hc⟩

/-- Atoms that stand apart from the signs are found in the text from left to right. -/
theorem eq_of_spell_eq {g : Nat → Text} : ∀ {o o' : Outline Nat}, (∀ s, .text s ∈ o → s ∈ signs) →
    (∀ s, .text s ∈ o' → s ∈ signs) → o.slots = o'.slots → (∀ i ∈ o.slots, Stands (g i)) →
    o.spell g = o'.spell g → o = o'
  | [], [], _, _, _, _, _ => rfl
  | [], .slot i :: o', _, _, hslots, _, _ => by cases hslots
  | .slot i :: o, [], _, _, hslots, _, _ => by cases hslots
  | [], .text s :: o', _, hs', _, _, h => by
    have hs := hs' s List.mem_cons_self
    rw [Outline.spell, Outline.spell] at h
    rw [(List.append_eq_nil_iff.mp h.symm).1] at hs
    simp [signs, Connective.spaced] at hs
  | .text s :: o, [], hs, _, _, _, h => by
    have hs := hs s List.mem_cons_self
    rw [Outline.spell, Outline.spell] at h
    rw [(List.append_eq_nil_iff.mp h).1] at hs
    simp [signs, Connective.spaced] at hs
  | .text s :: o, .slot i :: o', hs, _, hslots, hg, h => by
    rw [Outline.slots, Outline.slots] at hslots
    have hi : Stands (g i ++ Outline.spell g o') := by
      refine (hg i ?_).append _
      rw [Outline.slots, hslots]
      exact List.mem_cons_self
    rw [Outline.spell, Outline.spell] at h
    exact absurd (h ▸ hi) (not_stands_of_sign (hs s List.mem_cons_self) _)
  | .slot i :: o, .text s :: o', _, hs', _, hg, h => by
    have hi := (hg i List.mem_cons_self).append (Outline.spell g o)
    rw [Outline.spell, Outline.spell] at h
    exact absurd (h ▸ hi) (not_stands_of_sign (hs' s List.mem_cons_self) _)
  | .slot i :: o, .slot j :: o', hs, hs', hslots, hg, h => by
    obtain ⟨rfl, hrest⟩ := List.cons.inj hslots
    have ih := eq_of_spell_eq (fun s hm => hs s (List.mem_cons_of_mem _ hm))
      (fun s hm => hs' s (List.mem_cons_of_mem _ hm)) hrest
      (fun k hk => hg k (List.mem_cons_of_mem _ hk)) (List.append_cancel_left h)
    rw [ih]
  | .text s :: o, .text s' :: o', hs, hs', hslots, hg, h => by
    rw [Outline.spell, Outline.spell] at h
    obtain rfl := sign_eq_of_append_eq (hs s List.mem_cons_self) (hs' s' List.mem_cons_self) h
    have ih := eq_of_spell_eq (fun s hm => hs s (List.mem_cons_of_mem _ hm))
      (fun s hm => hs' s (List.mem_cons_of_mem _ hm)) hslots hg (List.append_cancel_left h)
    rw [ih]

/-- **A text has at most one reading**, if each fragment begins with a character that begins no
sign. -/
theorem Reads.unique {fragments : List Text} {text : Text} {f g : Formula}
    (hs : ∀ s ∈ fragments, Stands s) (hf : Reads fragments text f) (hg : Reads fragments text g) :
    f = g := by
  obtain ⟨o, hslots, rfl, ho⟩ := hf
  obtain ⟨o', hslots', hspell, ho'⟩ := hg
  have he : o = o' := by
    refine eq_of_spell_eq ho.text_mem_signs ho'.text_mem_signs (hslots.trans hslots'.symm) ?_ hspell.symm
    intro i hi
    rw [hslots, List.mem_range] at hi
    rw [List.getElem?_eq_getElem hi]
    exact hs _ (List.getElem_mem hi)
  exact ho.unique (he ▸ ho')

theorem Reads.ne_nil {fragments : List Text} {text : Text} {f : Formula}
    (hs : ∀ s ∈ fragments, Stands s) (hn : fragments ≠ []) (h : Reads fragments text f) :
    text ≠ [] := by
  obtain ⟨s, fragments, rfl⟩ := List.exists_cons_of_ne_nil hn
  obtain ⟨o, hslots, rfl, -⟩ := h
  have hzero : 0 ∈ o.slots := by simp [hslots]
  obtain ⟨c, t, rfl, -⟩ := hs s List.mem_cons_self
  exact fun he => List.cons_ne_nil c t (Outline.eq_nil_of_spell_eq_nil he 0 hzero)

end Formula

end SqlForge
