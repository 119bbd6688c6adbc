import Mathlib
import SqlForge.Draft
import SqlForge.Proofs.Texts

/-!
# Entries of a selection

An entry is cut at the first place that has `AS` between two spaces, in letters of either case. Letters
are compared without their case, one character at a time, so the place can be found as well by looking
for the capitals in a copy of the entry in capitals: the copy has its characters, and their bytes, at
the same places as the entry.
-/

namespace SqlForge

namespace Text

/-! ## The first place -/

/-- One of the texts `P` stands in `s` behind `u` and before `v`, and none begins sooner. -/
structure FirstCut (P : Text → Prop) (s u v : Text) : Prop where
  eq : ∃ w, P w ∧ s = u ++ (w ++ v)
  first : ∀ u' w v', P w → s = u' ++ (w ++ v') → u.length ≤ u'.length

theorem FirstCut.congr {P Q : Text → Prop} (h : ∀ w, P w ↔ Q w) {s u v : Text} :
    FirstCut P s u v ↔ FirstCut Q s u v := by
  obtain rfl : P = Q := funext fun w => propext (h w)
  rfl

theorem FirstCut.unique {P : Text → Prop} {n : Nat} (hP : ∀ w, P w → w.length = n)
    {s u v u' v' : Text} (h : FirstCut P s u v) (h' : FirstCut P s u' v') : u = u' ∧ v = v' := by
  obtain ⟨w, hw, hs⟩ := h.eq
  obtain ⟨w', hw', hs'⟩ := h'.eq
  have hlength := Nat.le_antisymm (h.first u' w' v' hw' hs') (h'.first u w v hw hs)
  obtain ⟨hu, hrest⟩ := List.append_inj (hs.symm.trans hs') hlength
  exact ⟨hu, (List.append_inj hrest ((hP w hw).trans (hP w' hw').symm)).2⟩

/-- What is found in an image of `s` is found in `s`, at the same place. -/
theorem firstCut_map {P : Text → Prop} {f : Char → Char} {s u v : Text} :
    FirstCut P (s.map f) u v ↔
      ∃ a b, FirstCut (fun w => P (w.map f)) s a b ∧ a.map f = u ∧ b.map f = v := by
  constructor
  · rintro ⟨⟨w, hw, hs⟩, hfirst⟩
    obtain ⟨a, rest, rfl, rfl, hrest⟩ := List.map_eq_append_iff.mp hs
    obtain ⟨w', b, rfl, rfl, rfl⟩ := List.map_eq_append_iff.mp hrest
    refine ⟨a, b, ⟨⟨w', hw, rfl⟩, ?_⟩, rfl, rfl⟩
    intro a' x b' hx he
    have hle := hfirst (a'.map f) (x.map f) (b'.map f) hx (by rw [he]; simp)
    simpa using hle
  · rintro ⟨a, b, ⟨⟨w, hw, rfl⟩, hfirst⟩, rfl, rfl⟩
    refine ⟨⟨w.map f, hw, by simp⟩, ?_⟩
    intro u' x v' hx he
    obtain ⟨a', rest, hs, rfl, hrest⟩ := List.map_eq_append_iff.mp he
    obtain ⟨x', b', rfl, rfl, rfl⟩ := List.map_eq_append_iff.mp hrest
    rw [List.length_map, List.length_map]
    exact hfirst a' x' b' hx hs

/-! ## Cutting at a word -/

theorem sameLetters_take_iff {w s : Text} : sameLetters (s.take w.length) w = true ↔
    ∃ x v, sameLetters x w = true ∧ s = x ++ v := by
  constructor
  · intro h
    exact ⟨_, _, h, (List.take_append_drop w.length s).symm⟩
  · rintro ⟨x, v, hx, rfl⟩
    rw [← length_eq_of_sameLetters hx, List.take_left]
    exact hx

section
variable {w : Text}

theorem firstCut_of_cutWord? : ∀ {s u v : Text}, cutWord? w s = some (u, v) →
    FirstCut (sameLetters · w = true) s u v
  | [], _, _, h => by cases h
  | c :: s, u, v, h => by
    rw [cutWord?] at h
    split at h
    · rename_i hw
      cases h
      exact ⟨⟨_, hw, (List.take_append_drop w.length (c :: s)).symm⟩, fun _ _ _ _ _ => Nat.zero_le _⟩
    · rename_i hw
      obtain ⟨⟨u', v'⟩, h', e⟩ := Option.map_eq_some_iff.mp h
      cases e
      obtain ⟨⟨x, hx, hs⟩, hfirst⟩ := firstCut_of_cutWord? h'
      refine ⟨⟨x, hx, by rw [hs, List.cons_append]⟩, ?_⟩
      intro a y b hy he
      -- one that begins at the head would have been met
      cases a with
      | nil => exact absurd (sameLetters_take_iff.mpr ⟨y, b, hy, he⟩) hw
      | cons d a =>
        rw [List.cons_append, List.cons.injEq] at he
        exact Nat.succ_le_succ (hfirst a y b hy he.2)

theorem not_occurs_of_cutWord? (hw : w ≠ []) : ∀ {s : Text}, cutWord? w s = none →
    ∀ u x v, sameLetters x w = true → s ≠ u ++ (x ++ v)
  | [], _, u, x, v, hx, he => by
    have hlength := length_eq_of_sameLetters hx
    simp only [List.nil_eq, List.append_eq_nil_iff] at he
    rw [he.2.1] at hlength
    exact hw (List.length_eq_zero_iff.mp hlength.symm)
  | c :: s, h, u, x, v, hx, he => by
    rw [cutWord?] at h
    split at h
    · cases h
    · rename_i hmiss
      cases u with
      | nil => exact hmiss (sameLetters_take_iff.mpr ⟨x, v, hx, he⟩)
      | cons d u =>
        rw [List.cons_append, List.cons.injEq] at he
        exact not_occurs_of_cutWord? hw (Option.map_eq_none_iff.mp h) u x v hx he.2

end

/-! ## Capitals -/

/-- `s` in capitals. Only the letters of ASCII have one here. -/
def asciiUpper (s : Text) : Text := s.map Char.toUpper

/-- The number of bytes of `s` in UTF-8. -/
def byteCount (s : Text) : Nat := (s.map Char.utf8Size).sum

theorem asciiUpper_lower (s : Text) : asciiUpper (lower s) = asciiUpper s := by
  simp [asciiUpper, lower]

theorem lower_asciiUpper (s : Text) : lower (asciiUpper s) = lower s := by
  simp [asciiUpper, lower]

theorem sameLetters_iff_asciiUpper {s t : Text} :
    sameLetters s t = true ↔ asciiUpper s = asciiUpper t := by
  rw [sameLetters, beq_iff_eq]
  constructor
  · intro h
    rw [← asciiUpper_lower s, h, asciiUpper_lower]
  · intro h
    rw [← lower_asciiUpper s, h, lower_asciiUpper]

theorem utf8Size_of_isAlpha {c : Char} (h : c.isAlpha = true) : c.utf8Size = 1 := by
  rw [Char.utf8Size_eq_one_iff, UInt32.le_iff_toNat_le]
  simp only [Char.isAlpha, Char.isUpper, Char.isLower, Bool.or_eq_true, Bool.and_eq_true,
    decide_eq_true_eq, ge_iff_le, UInt32.le_iff_toNat_le] at h
  change c.val.toNat ≤ 127
  change (65 ≤ c.val.toNat ∧ c.val.toNat ≤ 90) ∨ (97 ≤ c.val.toNat ∧ c.val.toNat ≤ 122) at h
  omega

theorem utf8Size_toUpper (c : Char) : c.toUpper.utf8Size = c.utf8Size := by
  by_cases h : c.isAlpha = true
  · rw [utf8Size_of_isAlpha h, utf8Size_of_isAlpha ((Char.isAlpha_toUpper_eq_isAlpha c).trans h)]
  · have hlower : ¬ c.isLower = true := fun hl => h (by simp [Char.isAlpha, hl])
    rw [Char.toUpper_eq_of_not_isLower hlower]

theorem byteCount_asciiUpper (s : Text) : byteCount (asciiUpper s) = byteCount s := by
  simp [byteCount, asciiUpper, Function.comp_def, utf8Size_toUpper]

/-! ## The word of an alias -/

/-- `AS` between two spaces, with either letter large or small. -/
def aliasWords : List Text := [" AS ".toList, " As ".toList, " aS ".toList, " as ".toList]

theorem eq_or_eq_toUpper {c x : Char} (h : c.toLower = x) : c = x ∨ c = x.toUpper := by
  subst h
  by_cases hc : c.isUpper = true
  · right
    rw [Char.toUpper_toLower_eq_toUpper, Char.toUpper_eq_of_not_isLower (Char.not_isLower_of_isUpper hc)]
  · left
    rw [Char.toLower_eq_of_not_isUpper hc]

theorem mem_aliasWords_iff {w : Text} : w ∈ aliasWords ↔ sameLetters w " AS ".toList = true := by
  constructor
  · have hall : ∀ x ∈ aliasWords, sameLetters x " AS ".toList = true := by decide
    exact hall w
  · intro h
    have hlower : w.map Char.toLower = [' ', 'a', 's', ' '] := beq_iff_eq.mp h
    obtain ⟨c, w, rfl, hc, hw⟩ := List.map_eq_cons_iff.mp hlower
    obtain ⟨x, w, rfl, hx, hw⟩ := List.map_eq_cons_iff.mp hw
    obtain ⟨y, w, rfl, hy, hw⟩ := List.map_eq_cons_iff.mp hw
    obtain ⟨z, w, rfl, hz, hw⟩ := List.map_eq_cons_iff.mp hw
    rw [List.map_eq_nil_iff.mp hw, eq_of_toLower_eq hc rfl, eq_of_toLower_eq hz rfl]
    -- the spaces have one spelling, the letters two each
    rcases eq_or_eq_toUpper hx with rfl | rfl <;> rcases eq_or_eq_toUpper hy with rfl | rfl <;> decide

theorem length_of_mem_aliasWords : ∀ w ∈ aliasWords, w.length = 4 := by decide

/-- The first `AS` is found in the copy in capitals where it is in the text. -/
theorem firstCut_asciiUpper {s u v : Text} : FirstCut (· = " AS ".toList) (asciiUpper s) u v ↔
    ∃ a b, FirstCut (· ∈ aliasWords) s a b ∧ asciiUpper a = u ∧ asciiUpper b = v := by
  have hword : ∀ w : Text, w.map Char.toUpper = " AS ".toList ↔ w ∈ aliasWords := fun w => by
    rw [mem_aliasWords_iff, sameLetters_iff_asciiUpper]
    rfl
  rw [asciiUpper, firstCut_map]
  exact exists_congr fun a => exists_congr fun b => and_congr_left' (FirstCut.congr hword)

end Text

namespace Dialect

variable {d : Dialect}

/-- How an entry is written: what stands before and behind its first `AS`, each as a name, or all of it as
one name. -/
inductive Writes (d : Dialect) (entry : Text) : Text → Prop
  | aliased {source name : Text} (h : Text.FirstCut (· ∈ Text.aliasWords) entry source name) :
      Writes d entry (d.quote source ++ " AS ".toList ++ d.quote name)
  | whole (h : ∀ source w name, w ∈ Text.aliasWords → entry ≠ source ++ (w ++ name)) :
      Writes d entry (d.quote entry)

/-- One text for each entry of a list of fields, in their order. A column of a table is the entry of its
name behind the name of the table and a point. -/
inductive Lists (d : Dialect) : List Field → List Text → Prop
  | nil : Lists d [] []
  | column {entry t : Text} {fs : List Field} {ts : List Text} (ht : d.Writes entry t)
      (hts : Lists d fs ts) : Lists d (.column entry :: fs) (t :: ts)
  | table {qualifier : Text} {columns us : List Text} {fs : List Field} {ts : List Text}
      (hus : List.Forall₂ (fun column u => d.Writes (qualifier ++ '.' :: column) u) columns us)
      (hts : Lists d fs ts) : Lists d (.table qualifier columns :: fs) (us ++ ts)

theorem writes_expression (entry : Text) : d.Writes entry (d.expression entry) := by
  rw [expression]
  cases hcut : Text.cutWord? " AS ".toList entry with
  | some parts =>
    exact .aliased ((Text.FirstCut.congr fun w => Text.mem_aliasWords_iff).mpr
      (Text.firstCut_of_cutWord? hcut))
  | none =>
    exact .whole fun source w name hw =>
      Text.not_occurs_of_cutWord? (by decide) hcut source w name (Text.mem_aliasWords_iff.mp hw)

theorem Writes.unique {entry t u : Text} (ht : d.Writes entry t) (hu : d.Writes entry u) : t = u := by
  cases ht with
  | aliased h =>
    cases hu with
    | aliased h' =>
      obtain ⟨rfl, rfl⟩ := h.unique Text.length_of_mem_aliasWords h'
      rfl
    | whole h' =>
      obtain ⟨w, hw, hs⟩ := h.eq
      exact absurd hs (h' _ w _ hw)
  | whole h =>
    cases hu with
    | aliased h' =>
      obtain ⟨w, hw, hs⟩ := h'.eq
      exact absurd hs (h _ w _ hw)
    | whole _ => rfl

theorem writes_iff {entry t : Text} : d.Writes entry t ↔ d.expression entry = t := by
  constructor
  · exact fun h => (writes_expression entry).unique h
  · rintro rfl
    exact writes_expression entry

theorem fields_table (qualifier : Text) (columns : List Text) (fs : List Field) :
    d.fields (.table qualifier columns :: fs) =
      columns.map (fun column => d.expression (qualifier ++ '.' :: column)) ++ d.fields fs := by
  rw [fields, fields, List.flatMap_cons, List.map_append, Field.expressions, List.map_map]
  rfl

theorem lists_iff {fs : List Field} {ts : List Text} : d.Lists fs ts ↔ d.fields fs = ts := by
  constructor
  · intro h
    induction h with
    | nil => rfl
    | column ht _ ih =>
      rw [← ih, ← writes_iff.mp ht]
      rfl
    | table hus _ ih =>
      rw [fields_table, ih]
      refine congrArg (· ++ _) ?_
      rw [← List.forall₂_eq_eq_eq, List.forall₂_map_left_iff]
      exact hus.imp fun _ _ => writes_iff.mp
  · rintro rfl
    induction fs with
    | nil => exact .nil
    | cons field fs ih =>
      cases field with
      | column entry => exact .column (writes_expression entry) ih
      | table qualifier columns =>
        rw [fields_table]
        refine .table ?_ ih
        rw [List.forall₂_map_right_iff, List.forall₂_same]
        exact fun column _ => writes_expression _

end Dialect

/-- **An entry is cut at its first `AS` only.** A draft writes one text for each entry of a selection, and a
later `AS` stays in the name that comes behind the first. A copy of the entry in capitals has its first `AS`
behind the same characters, and behind as many bytes. -/
theorem Draft.select_lists (d : Dialect) (w : Draft) (fs : List Field) :
    (∀ ts, d.Lists fs ts ↔ (w.select d fs).1 = ts) ∧
      ∀ entry u v, Text.FirstCut (· = " AS ".toList) entry.asciiUpper u v ↔
        ∃ source name, Text.FirstCut (· ∈ Text.aliasWords) entry source name ∧
          (source.asciiUpper = u ∧ source.byteCount = u.byteCount) ∧
          name.asciiUpper = v ∧ name.byteCount = v.byteCount := by
  refine ⟨fun ts => Dialect.lists_iff, fun entry u v => ?_⟩
  rw [Text.firstCut_asciiUpper]
  constructor
  · rintro ⟨source, name, h, rfl, rfl⟩
    exact ⟨source, name, h, ⟨rfl, source.byteCount_asciiUpper.symm⟩, rfl,
      name.byteCount_asciiUpper.symm⟩
  · rintro ⟨source, name, h, ⟨rfl, -⟩, rfl, -⟩
    exact ⟨source, name, h, rfl, rfl⟩

example : (Dialect.ofFlavor .mysql).expression "é aS b AS c".toList = "`é` AS `b AS c`".toList := by
  decide

example : (Dialect.ofFlavor .mysql).expression "é aſ b".toList = "`é aſ b`".toList := by decide

end SqlForge
