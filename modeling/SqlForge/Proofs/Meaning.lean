import SqlForge.Proofs.Drafts
import SqlForge.Proofs.Formulas

/-!
# What conditions mean

A tree of conditions is a conjunction, and each of its groups is the conjunction
or the disjunction of its members. The text that is written for the tree, read
as a formula over the texts of its leaves, says the same: the brackets around a
group keep its members together, whatever stands around it.
-/

namespace SqlForge

def Connective.fold : Connective → List Bool → Bool
  | and, bs => bs.all id
  | or, bs => bs.any id

namespace Conditions

variable {α β : Type}

/-! ## Trees of truth values -/

/-- The values of the members. A group that holds no leaf at any depth has no value. -/
def truths : Conditions Bool → List Bool
  | nil => []
  | leaf b rest => b :: truths rest
  | group word inner rest =>
    if inner.leaves = [] then truths rest else word.fold (truths inner) :: truths rest

def holds (cs : Conditions Bool) : Bool := Connective.and.fold cs.truths

/-- The tree with its leaves numbered from `i` on, from left to right. -/
def number : Nat → Conditions α → Conditions Nat
  | _, nil => nil
  | i, leaf _ rest => leaf i (number (i + 1) rest)
  | i, group word inner rest => group word (number i inner) (number (i + inner.leaves.length) rest)

theorem leaves_number : ∀ (i : Nat) (cs : Conditions α),
    (cs.number i).leaves = List.range' i cs.leaves.length
  | _, nil => rfl
  | i, leaf a rest => by
    rw [number, leaves, leaves, leaves_number, List.length_cons, List.range'_succ]
  | i, group word inner rest => by
    rw [number, leaves, leaves, leaves_number, leaves_number, List.length_append, List.range'_append_1]

theorem map_number (l : List α) (a : α) : ∀ {cs : Conditions α} {i : Nat} {post : List α},
    l.drop i = cs.leaves ++ post → (cs.number i).map (fun k => l[k]?.getD a) = cs
  | nil, _, _, _ => rfl
  | leaf b rest, i, post, h => by
    rw [leaves, List.cons_append] at h
    have hb : l[i]? = some b := by rw [← List.head?_drop, h]; rfl
    have hr : l.drop (i + 1) = rest.leaves ++ post := by rw [← List.drop_drop, h]; rfl
    rw [number, map, hb, map_number l a hr]
    rfl
  | group word inner rest, i, post, h => by
    rw [leaves, List.append_assoc] at h
    have hr : l.drop (i + inner.leaves.length) = rest.leaves ++ post := by
      rw [← List.drop_drop, h, List.drop_left]
    rw [number, map, map_number l a h, map_number l a hr]

/-! ## The formula of a tree -/

def formulas : Conditions Nat → List Formula
  | nil => []
  | leaf i rest => .atom i :: formulas rest
  | group word inner rest =>
    match formulas inner with
    | [] => formulas rest
    | f :: fs => fs.foldl (.joined word) f :: formulas rest

def outlines (cs : Conditions Nat) : List (Outline Nat) :=
  (cs.map fun i => ([.slot i] : Outline Nat)).members fun s => [.text s]

theorem spelled_outlines : ∀ cs : Conditions Nat,
    List.Forall₂ (Formula.Spelled .operand) cs.outlines cs.formulas
  | nil => .nil
  | leaf i rest => .cons (.atom i) (spelled_outlines rest)
  | group word inner rest => by
    have hi := spelled_outlines inner
    have hr := spelled_outlines rest
    rw [outlines, map, members_group, formulas]
    change List.Forall₂ _ (if inner.outlines = [] then rest.outlines
      else (.text ['('] :: (List.intercalate [.text word.spaced] inner.outlines ++ [.text [')']])) ::
        rest.outlines) _
    cases hos : inner.outlines with
    | nil =>
      rw [hos, List.forall₂_nil_left_iff] at hi
      rw [if_pos rfl, hi]
      exact hr
    | cons o os =>
      rw [hos] at hi
      obtain ⟨f, fs, hf, hfs, e⟩ := List.forall₂_cons_left_iff.mp hi
      rw [if_neg (List.cons_ne_nil o os), e]
      exact .cons (.bracketed (Formula.Spelled.row word (.cons hf hfs))) hr

theorem outlines_eq_nil_iff (cs : Conditions Nat) : cs.outlines = [] ↔ cs.leaves = [] := by
  rw [outlines, members_eq_nil_iff, leaves_map, List.map_eq_nil_iff]

theorem fold_cons_apply (word : Connective) (a b : Bool) (bs : List Bool) :
    word.fold (word.apply a b :: bs) = word.fold (a :: b :: bs) := by
  cases word with
  | and => simp [Connective.fold, Connective.apply, Bool.and_assoc]
  | or => simp [Connective.fold, Connective.apply, Bool.or_assoc]

theorem holds_foldl (σ : Nat → Bool) (word : Connective) : ∀ (fs : List Formula) (f : Formula),
    (fs.foldl (.joined word) f).holds σ = word.fold ((f :: fs).map (·.holds σ))
  | [], f => by cases word <;> simp [Connective.fold]
  | g :: fs, f => by
    rw [List.foldl_cons, holds_foldl σ word fs, List.map_cons, Formula.holds, fold_cons_apply]
    rfl

theorem map_holds_formulas (σ : Nat → Bool) : ∀ cs : Conditions Nat,
    cs.formulas.map (·.holds σ) = (cs.map σ).truths
  | nil => rfl
  | leaf i rest => congrArg (σ i :: ·) (map_holds_formulas σ rest)
  | group word inner rest => by
    -- a group has formulas exactly if it has a leaf, so both sides drop the same groups
    have hi := map_holds_formulas σ inner
    have hr := map_holds_formulas σ rest
    have hlen := (spelled_outlines inner).length_eq
    have hn : inner.formulas = [] ↔ (inner.map σ).leaves = [] := by
      rw [leaves_map, List.map_eq_nil_iff, ← outlines_eq_nil_iff, ← List.length_eq_zero_iff, ← hlen,
        List.length_eq_zero_iff]
    rw [map, formulas, truths, ← hi, ← hr]
    cases hfs : inner.formulas with
    | nil => rw [if_pos (hn.mp hfs)]
    | cons f fs =>
      rw [if_neg (mt hn.mpr (by simp [hfs])), List.map_cons, holds_foldl]

/-- A tree whose leaves are texts, joined as a conjunction, reads as a formula with its value. -/
theorem reads_members {cs : Conditions Text} (hn : cs.leaves ≠ []) :
    ∃ f, Formula.Reads cs.leaves (Text.join Connective.and.spaced (cs.members id)) f ∧
      ∀ σ, f.holds σ = ((cs.number 0).map σ).holds := by
  have hnum : (cs.number 0).leaves = List.range cs.leaves.length := by
    rw [leaves_number, List.range_eq_range']
  have hsp := spelled_outlines (cs.number 0)
  cases hos : (cs.number 0).outlines with
  | nil =>
    rw [outlines_eq_nil_iff, hnum, List.range_eq_nil, List.length_eq_zero_iff] at hos
    exact absurd hos hn
  | cons o os =>
    rw [hos] at hsp
    obtain ⟨f, fs, hf, hfs, e⟩ := List.forall₂_cons_left_iff.mp hsp
    refine ⟨fs.foldl (.joined .and) f, ⟨_, ?_, ?_, .row .and (.cons hf hfs)⟩, fun σ => ?_⟩
    · rw [Outline.slots_intercalate, ← hos, outlines, slots_members, leaves_map, hnum, List.flatMap_map]
      exact List.flatMap_singleton' _
    · have hspell : (fun k : Nat => Outline.spell (fun i => cs.leaves[i]?.getD []) [.slot k]) =
          fun k => cs.leaves[k]?.getD [] := funext fun k => List.append_nil _
      have hback : (cs.number 0).map (fun k => cs.leaves[k]?.getD []) = cs :=
        map_number cs.leaves [] (List.append_nil cs.leaves).symm
      rw [Outline.spell_intercalate, ← hos, outlines, spell_members, map_map, hspell, hback]
    · rw [holds, ← map_holds_formulas, e, holds_foldl]

/-! ## Visiting a tree -/

theorem leaves_traverse {m : Type → Type} [Monad m] [LawfulMonad m] (f : α → m β) :
    ∀ cs : Conditions α, leaves <$> cs.traverse f = cs.leaves.mapM f
  | nil => by simp [traverse, leaves]
  | leaf a rest => by
    rw [traverse, leaves, List.mapM_cons, ← leaves_traverse f rest]
    simp [leaves]
  | group word inner rest => by
    rw [traverse, leaves, List.mapM_append, ← leaves_traverse f inner, ← leaves_traverse f rest]
    simp [leaves]

section
variable {ε σ : Type}

/-- A visit answers and ends as a visit of the leaves alone does. -/
theorem run_mapM_leaves (f : α → ExceptT ε (StateM σ) β) (cs : Conditions α) (s : σ) :
    (cs.leaves.mapM f).run s =
      (((cs.traverse f).run s).1.map leaves, ((cs.traverse f).run s).2) := by
  rw [← leaves_traverse, ExceptT.run_map]
  rfl

theorem run_mapM_leaves_of_ok {f : α → ExceptT ε (StateM σ) β} {cs : Conditions α}
    {cs' : Conditions β} {s s' : σ} (h : (cs.traverse f).run s = (.ok cs', s')) :
    (cs.leaves.mapM f).run s = (.ok cs'.leaves, s') := by
  rw [run_mapM_leaves, h]
  rfl

/-- The visited tree has the shape of the tree, and its leaves come of the leaves in order. -/
theorem run_traverse_ok {f : α → ExceptT ε (StateM σ) β} : ∀ {cs : Conditions α} {cs' : Conditions β}
    {s s' : σ}, (cs.traverse f).run s = (.ok cs', s') →
    (∀ i, cs'.number i = cs.number i) ∧ cs'.leaves.length = cs.leaves.length
  | nil, cs', s, s', h => by
    cases h
    exact ⟨fun _ => rfl, rfl⟩
  | leaf a rest, cs', s, s', h => by
    rw [traverse] at h
    obtain ⟨b, s₁, -, h⟩ := run_bind_ok h
    obtain ⟨rest', s₂, hr, h⟩ := run_bind_ok h
    cases h
    obtain ⟨hn, hl⟩ := run_traverse_ok hr
    exact ⟨fun i => congrArg (leaf i) (hn (i + 1)), congrArg (· + 1) hl⟩
  | group word inner rest, cs', s, s', h => by
    rw [traverse] at h
    obtain ⟨inner', s₁, hi, h⟩ := run_bind_ok h
    obtain ⟨rest', s₂, hr, h⟩ := run_bind_ok h
    cases h
    obtain ⟨hni, hli⟩ := run_traverse_ok hi
    obtain ⟨hnr, hlr⟩ := run_traverse_ok hr
    refine ⟨fun i => ?_, ?_⟩
    · rw [number, number, hni, hnr, hli]
    · rw [leaves, leaves, List.length_append, List.length_append, hli, hlr]

theorem run_mapM_ok {f : α → ExceptT ε (StateM σ) β} {P : β → Prop}
    (hf : ∀ a s b s', (f a).run s = (.ok b, s') → P b) : ∀ {as : List α} {bs : List β} {s s' : σ},
    (as.mapM f).run s = (.ok bs, s') → ∀ b ∈ bs, P b
  | [], bs, s, s', h, b, hb => by
    cases h
    cases hb
  | a :: as, bs, s, s', h, b, hb => by
    rw [List.mapM_cons] at h
    obtain ⟨b₀, s₁, h₀, h⟩ := run_bind_ok h
    obtain ⟨bs₀, s₂, h₁, h⟩ := run_bind_ok h
    cases h
    rcases List.mem_cons.mp hb with rfl | hb
    · exact hf a s _ s₁ h₀
    · exact run_mapM_ok hf h₁ b hb

end

end Conditions

/-! ## What stands in front of a fragment -/

theorem Flavor.stands_quote (f : Flavor) (name : Text) : Formula.Stands (f.quote name) := by
  have hmark : f.mark ∉ ['(', ')', ' '] := by cases f <;> decide
  rw [quote]
  rcases f.identifier_cases false name with ⟨-, hw⟩ | ⟨_, _, -, -, hw⟩
  · rw [hw]
    exact ⟨f.mark, _, rfl, hmark⟩
  · rw [hw]
    exact ⟨f.mark, _, rfl, hmark⟩

namespace Dialect

variable (d : Dialect)

theorem stands_comparison (column : Text) (op : Operator) (v : Value) :
    ∃ s rest, d.comparison column op v = .text s :: rest ∧ Formula.Stands s := by
  have hleft : Formula.Stands (d.quote column ++ ' ' :: op.keyword) :=
    (d.flavor.stands_quote column).append _
  unfold comparison
  dsimp only
  split
  · exact ⟨_, _, rfl, hleft.append _⟩
  · split
    · exact ⟨_, _, rfl, hleft⟩
    · exact ⟨_, _, rfl, hleft.append _⟩

theorem stands_membership (column : Text) (op : Operator) (vs : List Value) :
    ∃ s rest, d.membership column op vs = .text s :: rest ∧ Formula.Stands s := by
  unfold membership
  split
  · refine ⟨_, _, rfl, ?_⟩
    split
    · exact ⟨'0', _, rfl, by decide⟩
    · exact ⟨'0', _, rfl, by decide⟩
  · have hleft : Formula.Stands (d.quote column ++ ' ' :: op.forList.keyword) :=
      (d.flavor.stands_quote column).append _
    exact ⟨_, _, rfl, hleft.append _⟩

theorem stands_condition {c : Condition} {t : Template} (h : d.condition c = .ok t) :
    ∃ s rest, t = .text s :: rest ∧ Formula.Stands s := by
  unfold condition at h
  dsimp only at h
  split at h
  · cases h
  · split at h
    · cases h
      exact d.stands_comparison _ _ _
    · cases h
      exact d.stands_membership _ _ _

end Dialect

namespace Draft

variable {d : Dialect} {w w' : Draft} {cs : Conditions Condition} {text : Text}

theorem stands_of_condition_ok {c : Condition} {bs bs' : Bindings} {s : Text}
    (h : (condition d c).run bs = (.ok s, bs')) : Formula.Stands s := by
  rw [Conditions.run_condition] at h
  split at h
  · rename_i t ht
    cases h
    obtain ⟨head, rest, rfl, hs⟩ := d.stands_condition ht
    exact hs.append (Template.write d rest bs).1
  · cases h

theorem restrict_ok (h : w.restrict d cs = (.ok text, w')) :
    ∃ written, (cs.traverse (condition d)).run w.bindings = (.ok written, w'.bindings) ∧
      text = Text.join Connective.and.spaced (written.members id) := by
  unfold restrict at h
  split at h
  · rename_i written bs hrun
    cases h
    exact ⟨written, hrun, rfl⟩
  · cases h

/-- **Conditions keep their meaning.** The leaves are written in order, and the text has exactly one
reading as a formula over what they left, which has the value of the tree whatever the values of the
leaves are. There is no text exactly if there is no leaf. -/
theorem restrict_reads (h : w.restrict d cs = (.ok text, w')) :
    ∃ fragments, (cs.leaves.mapM (condition d)).run w.bindings = (.ok fragments, w'.bindings) ∧
      (text = [] ↔ cs.leaves = []) ∧
      (cs.leaves ≠ [] → ∃ f, Formula.Reads fragments text f ∧
        (∀ g, Formula.Reads fragments text g → g = f) ∧
        ∀ σ, f.holds σ = ((cs.number 0).map σ).holds) := by
  obtain ⟨written, hrun, rfl⟩ := restrict_ok h
  have hleaves := Conditions.run_mapM_leaves_of_ok hrun
  obtain ⟨hnumber, hlength⟩ := Conditions.run_traverse_ok hrun
  have hstands : ∀ s ∈ written.leaves, Formula.Stands s :=
    Conditions.run_mapM_ok (fun _ _ _ _ => stands_of_condition_ok) hleaves
  have hnil : written.leaves = [] ↔ cs.leaves = [] := by
    rw [← List.length_eq_zero_iff, hlength, List.length_eq_zero_iff]
  refine ⟨written.leaves, hleaves, ?_, fun hn => ?_⟩
  · constructor
    · intro ht
      by_contra hn
      obtain ⟨f, hf, -⟩ := Conditions.reads_members (mt hnil.mp hn)
      exact hf.ne_nil hstands (mt hnil.mp hn) ht
    · intro hn
      rw [(Conditions.members_eq_nil_iff id written).mpr (hnil.mpr hn)]
      rfl
  · obtain ⟨f, hf, hholds⟩ := Conditions.reads_members (mt hnil.mp hn)
    refine ⟨f, hf, fun g hg => hg.unique hstands hf, fun σ => ?_⟩
    rw [hholds, hnumber]

/-- A group within a group, behind one that holds nothing. -/
theorem restrict_reads_nested :
    let d : Dialect := .ofFlavor .mysql
    let cs : Conditions Condition :=
      .leaf ⟨"a".toList, .one (.signed 1)⟩ <| .group .or
        (.leaf ⟨"b >".toList, .one (.signed 2)⟩ <| .group .and .nil <| .group .and
          (.leaf ⟨"a is null".toList, .one .null⟩ <| .leaf ⟨"c".toList, .many []⟩ .nil) .nil) .nil
    ∃ text w', (start 1).restrict d cs = (.ok text, w') ∧
      text = "`a` = :where_a: AND (`b` > :where_b: OR (`a` IS NULL AND 0 = 1))".toList ∧
      ∃ fragments f, (cs.leaves.mapM (condition d)).run .empty = (.ok fragments, w'.bindings) ∧
        Formula.Reads fragments text f ∧ ∀ σ, f.holds σ = (σ 0 && (σ 1 || σ 2 && σ 3)) := by
  intro d cs
  have hrun : (start 1).restrict d cs = (.ok _, _) := rfl
  obtain ⟨fragments, hfragments, -, hreads⟩ := restrict_reads hrun
  obtain ⟨f, hf, -, hholds⟩ := hreads (by decide)
  refine ⟨_, _, hrun, by decide +kernel, fragments, f, hfragments, hf, fun σ => ?_⟩
  rw [hholds]
  simp [cs, Conditions.number, Conditions.map, Conditions.leaves, Conditions.holds,
    Conditions.truths, Connective.fold]

end Draft

end SqlForge
