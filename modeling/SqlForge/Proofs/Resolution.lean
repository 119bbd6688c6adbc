import SqlForge.Proofs.Calls
import SqlForge.Proofs.Changes
import SqlForge.Proofs.Insertion
import SqlForge.Proofs.Ownership

/-!
# Placeholders that are resolved

Where neither names nor values have a colon, the colons of a statement are those of its
placeholders. All of them are filled in but those of keys that consist of digits, and such a key
comes of a column of digits only: conditions and the limit ask for names.
-/

namespace SqlForge

/-! ## Literals without colons -/

theorem Flavor.colon_not_mem_escape (f : Flavor) {s : Text} (h : ':' ∉ s) : ':' ∉ f.escape s := by
  intro hm
  obtain ⟨c, hc, hm⟩ := List.mem_flatMap.mp hm
  have hne : ':' ≠ c := fun e => h (e ▸ hc)
  cases f with
  | mysql =>
    unfold escapeChar at hm
    dsimp only at hm
    split at hm <;> simp_all
  | postgres | sqlite =>
    unfold escapeChar at hm
    dsimp only at hm
    split at hm <;> simp_all

namespace Dialect

variable {d : Dialect}

/-- The escape brings in no colon of its own. -/
def AddsNoColon (d : Dialect) : Prop := ∀ s, ':' ∉ s → ':' ∉ d.escape s

theorem addsNoColon_ofFlavor (f : Flavor) : (ofFlavor f).AddsNoColon := fun _ => f.colon_not_mem_escape

section
variable (hd : d.AddsNoColon)
include hd

theorem colon_not_mem_body {s : Text} (h : ':' ∉ s) : ':' ∉ d.body s := by
  intro hm
  have := Text.mem_of_mem_trim hm
  split at this
  · exact hd s h this
  · exact h this

theorem colon_not_mem_argument {s : Text} (h : ':' ∉ s) : ':' ∉ d.argument s := by
  unfold argument
  split
  · dsimp only
    split
    · decide
    · have hb : ':' ∉ Text.trim (· == '\'') s := fun hm => h (Text.mem_of_mem_trim hm)
      simp [literal, hd _ hb]
  · split
    · exact Text.not_mem_integer (by decide) (by decide) _
    · exact colon_not_mem_quote d.flavor h

theorem colon_not_mem_arguments {s : Text} (h : ':' ∉ s) : ∀ a ∈ d.arguments s, ':' ∉ a := by
  intro a ha
  obtain ⟨t, ht, rfl⟩ := List.mem_map.mp ha
  obtain ⟨piece, hp, rfl⟩ := List.mem_map.mp (List.mem_filter.mp ht).1
  apply colon_not_mem_argument hd
  exact fun hm => h (Text.mem_of_mem_splitOn hp (Text.mem_of_mem_trim hm))

theorem colon_not_mem_call {s : Text} (h : ':' ∉ s) : ':' ∉ d.call s := by
  unfold call
  split
  · exact h
  · split
    · rename_i c hc
      obtain ⟨-, -, rest, rfl, ha⟩ := Call.read?_eq_some_iff.mp hc
      obtain ⟨b, hb, -⟩ := Text.eq_of_beforeLast? ha
      have harg : ':' ∉ c.arguments := by
        intro hm
        have hrest : ':' ∈ rest.takeWhile (· != '\n') := by simp [hb, hm]
        exact h (by simp [(List.takeWhile_sublist _).mem hrest])
      have hn : ':' ∉ c.name := fun hm => h (List.mem_append_left _ hm)
      have hj : ':' ∉ Text.join ", ".toList (d.arguments c.arguments) :=
        Text.not_mem_join (by decide) (colon_not_mem_arguments hd harg)
      rw [List.mem_append, List.mem_append, List.mem_cons]
      rintro ((hm | hm | hm) | hm)
      · exact hn hm
      · exact absurd hm (by decide)
      · exact hj hm
      · exact absurd hm (by decide)
    · have ht : ':' ∉ s.takeWhile (· != '(') := fun hm => h ((List.takeWhile_sublist _).mem hm)
      simp [ht]

theorem colon_not_mem_lit {v : Value} (h : ':' ∉ v.raw) : ':' ∉ d.lit v := by
  have hq : ∀ s : Text, ':' ∉ s → ':' ∉ quoted s := fun s hs => by simp [quoted, hs]
  cases v with
  | null => simp [lit]
  | bool b => cases b <;> simp [lit]
  | signed n => exact colon_not_mem_body hd h
  | unsigned n => exact colon_not_mem_body hd h
  | double x => exact colon_not_mem_body hd h
  | dateTime t => exact hq _ (colon_not_mem_body hd h)
  | text s =>
    have hb := colon_not_mem_body hd h
    rw [lit]
    split
    · decide
    · split
      · decide
      · split
        · exact colon_not_mem_call hd h
        · split
          · exact hb
          · exact hq _ hb

end

/-! ## Slots -/

/-- The placeholder of `b` is not filled in: its key consists of digits, and its value is not written
directly. -/
def Stays (d : Dialect) (b : Binding) : Prop := b.isOrdinal = true ∧ d.direct? b.value = none

instance (d : Dialect) (b : Binding) : Decidable (d.Stays b) := inferInstanceAs (Decidable (_ ∧ _))

theorem not_stays_of_isName {b : Binding} (h : isName b.key = true) : ¬ d.Stays b := by
  rintro ⟨ho, -⟩
  rw [not_isOrdinal_of_isName h] at ho
  cases ho

/-- What stands in the end in the place of `b`. -/
def resolved (d : Dialect) (b : Binding) : Text :=
  if d.Stays b then dress b.value b.placeholder else d.lit b.value

theorem fill_eq_resolved {es : List Binding} {b : Binding} (hb : b ∈ es)
    (hnd : (es.map Binding.key).Nodup) (hk : ':' ∉ b.key) (hv : ':' ∉ d.lit b.value) :
    Bindings.fillAll d.cleaner? es (d.place b.value b.key) = d.resolved b := by
  cases hdir : d.direct? b.value with
  | some s =>
    have hs := lit_of_direct hdir
    rw [hs] at hv
    simp [place, resolved, Stays, hdir, hs, Bindings.fillAll_of_no_colon _ hv]
  | none =>
    rw [place, hdir, Option.getD_none, fill_dress]
    by_cases ho : b.isOrdinal = true
    · have hstay : Bindings.fillAll d.cleaner? es (placeholder b.key) = placeholder b.key := by
        apply Bindings.fillAll_of_clean
        intro b' _ ho' hi
        rw [Bindings.isOrdinal_congr (key_eq_of_occurrence hk hi), ho] at ho'
        cases ho'
      rw [hstay, resolved, if_pos ⟨ho, hdir⟩]
      rfl
    · obtain ⟨pre, post, rfl⟩ := List.append_of_mem hb
      have hpost : ∀ b' ∈ post, b'.isOrdinal = false →
          ¬ b'.placeholder <:+: b.value.filling d.cleaner? := fun b' _ _ hi =>
        hv ((hi.trans (filling_infix_lit hdir)).subset (colon_mem_placeholder b'.key))
      have hf := Bindings.fillAll_placeholder_of_split d.cleaner? (Bindings.key_ne_of_nodup hnd) hk
        (Bool.eq_false_iff.mpr ho) hpost
      rw [resolved, if_neg (fun h => ho h.1), lit_of_placed hdir]
      exact congrArg (dress b.value) hf

theorem colon_mem_resolved {b : Binding} (hv : ':' ∉ d.lit b.value) :
    ':' ∈ d.resolved b ↔ d.Stays b := by
  unfold resolved
  by_cases h : d.Stays b
  · have hp : ':' ∈ b.placeholder := colon_mem_placeholder b.key
    have hq : ':' ∈ dress b.value b.placeholder := by
      unfold dress
      split <;> simp [hp]
    simp [h, hq]
  · simp [h, hv]

end Dialect

theorem Outline.colon_mem_spell {α : Type} {sep : Char → Prop} {f : α → Text} :
    ∀ {o : Outline α} {p : Prop}, o.Apart sep p → (':' ∈ o.spell f ↔ ∃ a ∈ o.slots, ':' ∈ f a)
  | [], _, _ => by simp [spell, slots]
  | .text s :: o, _, ⟨hs, ho⟩ => by
    rw [spell, slots, List.mem_append, or_iff_right hs]
    exact colon_mem_spell ho
  | .slot a :: o, _, ⟨_, ho⟩ => by
    rw [spell, slots, List.mem_append, colon_mem_spell ho, List.exists_mem_cons_iff]

/-! ## Numbered keys -/

/-- `b'` has the value of `b`, and its key up to a number behind it. -/
structure Binding.Numbers (b b' : Binding) : Prop where
  value : b'.value = b.value
  key : ∃ ds : Text, b'.key = b.key ++ ds ∧ ∀ c ∈ ds, c.isDigit = true
  ordinal : b'.isOrdinal = b.isOrdinal

theorem Bindings.numbers_keyFor (bs : Bindings) {b : Binding} (h : isWord b.key = true) :
    b.Numbers ⟨bs.keyFor b.key, b.value⟩ := by
  obtain ⟨ds, e, hd⟩ := bs.keyFor_eq b.key
  rw [trim_colon_of_isWord h] at e
  refine ⟨rfl, ⟨ds, e, hd⟩, ?_⟩
  have hn := ne_nil_of_isWord h
  have hall : ds.all Char.isDigit = true := List.all_eq_true.mpr hd
  have he : ∀ s : Text, b.key ++ s ≠ [] := fun s => List.append_ne_nil_of_left_ne_nil hn s
  simp only [Binding.isOrdinal, e, List.all_append, hall, Bool.and_true,
    List.isEmpty_eq_false_iff.mpr (he ds), List.isEmpty_eq_false_iff.mpr hn]

theorem Template.numbers_assign : ∀ (t : Template) (bs : Bindings),
    (∀ b ∈ t.slots, isWord b.key = true) →
    List.Forall₂ Binding.Numbers t.slots (t.assign bs).1.slots
  | [], _, _ => .nil
  | .text _ :: t, bs, h => numbers_assign t bs h
  | .slot b :: t, bs, h =>
    .cons (bs.numbers_keyFor (h b List.mem_cons_self))
      (numbers_assign t _ fun b' hb' => h b' (List.mem_cons_of_mem _ hb'))

namespace Dialect

variable {d : Dialect}

theorem stays_of_numbers {b b' : Binding} (h : b.Numbers b') : d.Stays b' ↔ d.Stays b := by
  rw [Stays, Stays, h.ordinal, h.value]

theorem exists_stays_of_numbers {own own' : List Binding} (h : List.Forall₂ Binding.Numbers own own') :
    (∃ b ∈ own', d.Stays b) ↔ ∃ b ∈ own, d.Stays b := by
  induction h with
  | nil => simp
  | cons hb _ ih => rw [List.exists_mem_cons_iff, List.exists_mem_cons_iff, stays_of_numbers hb, ih]

/-! ## Templates -/

section
variable {t : Template} (hs : ∀ b ∈ t.slots, isWord b.key = true ∧ ':' ∉ d.lit b.value)
include hs

theorem slots_assign (bs : Bindings) :
    ∀ b ∈ (t.assign bs).1.slots, isWord b.key = true ∧ ':' ∉ d.lit b.value := by
  intro b hb
  refine ⟨t.keys_assign (P := fun k => isWord k = true) (fun bs _ => bs.isWord_keyFor) bs
    (fun b' hb' => (hs b' hb').1) b hb, ?_⟩
  have hm : b.value ∈ (t.assign bs).1.slots.map Binding.value := List.mem_map_of_mem hb
  rw [t.values_assign bs] at hm
  obtain ⟨b', hb', e⟩ := List.mem_map.mp hm
  exact e ▸ (hs b' hb').2

variable (ht : t.Apart (fun c => isWordChar c = false) True) (n : Nat)
include ht

theorem complete_eq_resolved : (d.complete n t).sql = (t.assign .empty).1.spell d.resolved := by
  have ha := slots_assign hs .empty
  have hnd := (t.assign .empty).2.nodup_keys
  rw [Bindings.Raw.keys, t.entries_assign] at hnd
  rw [complete_spell ht (fun c hc b hb => not_mem_of_isWord (ha b hb).1 hc) n]
  apply Outline.spell_congr
  intro b hb
  exact fill_eq_resolved hb hnd (not_mem_of_isWord (ha b hb).1 rfl) (ha b hb).2

theorem colon_mem_complete : ':' ∈ (d.complete n t).sql ↔ ∃ b ∈ t.slots, d.Stays b := by
  have ha := slots_assign hs .empty
  rw [complete_eq_resolved hs ht n, Outline.colon_mem_spell (Template.apart_assign .empty ht),
    ← exists_stays_of_numbers (t.numbers_assign .empty fun b hb => (hs b hb).1)]
  constructor
  · rintro ⟨b, hb, h⟩
    exact ⟨b, hb, (colon_mem_resolved (ha b hb).2).mp h⟩
  · rintro ⟨b, hb, h⟩
    exact ⟨b, hb, (colon_mem_resolved (ha b hb).2).mpr h⟩

end

/-! ## Conditions and limits -/

theorem values_conditions {cs : Conditions Condition} {ts : List Template}
    (h : d.conditions cs = .ok ts) :
    (ts.flatMap Outline.slots).map Binding.value = cs.leaves.flatMap Condition.values := by
  unfold conditions at h
  cases ht : cs.traverse d.condition with
  | error e =>
    rw [ht] at h
    cases h
  | ok cs' =>
    rw [ht] at h
    cases h
    obtain ⟨hm, -⟩ := Conditions.traverse_ok (P := fun _ => True)
      (fun c _ t htc => ⟨(d.places_condition htc).values, trivial⟩) ht
    have hl := congrArg Conditions.leaves hm
    rw [Conditions.leaves_map, Conditions.leaves_map] at hl
    have hs : (cs'.members Template.ofText).flatMap Outline.slots = cs'.leaves.flatMap Outline.slots :=
      Conditions.slots_members cs'
    rw [hs, List.map_flatMap, List.flatMap_def, hl, List.flatMap_def]

/-- What stands behind the assigned columns of an `UPDATE`. -/
def tail (ts : List Template) (limit : Option UInt64) : Template :=
  Sentence.ofClauses (Clause.restriction ts ++ Clause.window (limit.map (none, ·)))

section
variable {ts : List Template} (hfit : ∀ t ∈ ts, Template.Fit d t) (limit : Option UInt64)

theorem slots_tail (hn : ts ≠ []) : (tail ts limit).slots = ts.flatMap Outline.slots ++
    (limit.map fun m => ⟨"limit".toList, .unsigned m⟩).toList := by
  have he : ts.isEmpty = false := by simpa using hn
  rw [tail, slots_clauses, Clause.restriction, he]
  simp [Template.ofText, Outline.slots, Template.slots_join]

theorem raw_tail {cs : Conditions Condition} (hcs : ∀ c ∈ cs.leaves, ∀ v ∈ c.values, ':' ∉ v.raw)
    (hts : d.conditions cs = .ok ts) (hn : ts ≠ []) :
    ∀ b ∈ (tail ts limit).slots, ':' ∉ b.value.raw := by
  intro b hb
  rw [slots_tail limit hn] at hb
  rcases List.mem_append.mp hb with hb | hb
  · have hm : b.value ∈ (ts.flatMap Outline.slots).map Binding.value := List.mem_map_of_mem hb
    rw [values_conditions hts] at hm
    obtain ⟨c, hc, hm⟩ := List.mem_flatMap.mp hm
    exact hcs c hc b.value hm
  · obtain ⟨m, -, rfl⟩ := Option.map_eq_some_iff.mp (Option.mem_toList.mp hb)
    exact Text.not_mem_natural (by decide) m.toNat

include hfit

theorem isName_tail (hn : ts ≠ []) : ∀ b ∈ (tail ts limit).slots, isName b.key = true := by
  intro b hb
  rw [slots_tail limit hn] at hb
  rcases List.mem_append.mp hb with hb | hb
  · exact (slots_of_fit hfit b hb).1
  · obtain ⟨m, -, rfl⟩ := Option.map_eq_some_iff.mp (Option.mem_toList.mp hb)
    change isName "limit".toList = true
    decide

/-- Keys of conditions and the key of the limit are names, so nothing stays there. -/
theorem spell_tail {cs : Conditions Condition} (hn : ts ≠ [])
    (h : ts.map (Template.inline d) = (cs.map d.conditionText).members id) (bs : Bindings) :
    ((tail ts limit).assign bs).1.spell d.resolved =
      Text.join [' '] (d.whereClause cs ++ limitClause (limit.map fun m => d.lit (.unsigned m))) := by
  have hname := (tail ts limit).keys_assign (P := fun k => isName k = true)
    (fun bs _ => bs.isName_keyFor) bs (isName_tail hfit limit hn)
  have hres : ∀ b ∈ ((tail ts limit).assign bs).1.slots, d.resolved b = d.lit b.value := by
    intro b hb
    rw [resolved, if_neg (not_stays_of_isName (hname b hb))]
  rw [Outline.spell_congr hres, Template.spell_assign, tail, Sentence.ofClauses, Template.spell_join,
    List.map_append]
  exact congrArg₂ (fun r w => Text.join [' '] (r ++ w)) (inline_restriction hn h) (inline_window limit)

end

/-! ## Assigned columns -/

/-- Columns that are set to what `own` has for them. -/
def sets (d : Dialect) (values : List Assignment) (own : List Binding) : Template :=
  Template.join ", ".toList
    (List.zipWith (fun a b => [.text (d.quote a.column ++ " = ".toList), .slot b]) values own)

theorem sets_cons_cons (a a' : Assignment) (values : List Assignment) (b b' : Binding)
    (own : List Binding) : d.sets (a :: a' :: values) (b :: b' :: own) =
      [.text (d.quote a.column ++ " = ".toList), .slot b] ++
        .text ", ".toList :: d.sets (a' :: values) (b' :: own) := Template.join_cons_cons _ _ _ _

theorem assign_sets : ∀ (values : List Assignment) (bs : Bindings), ∃ own : List Binding,
    own.length = values.length ∧
      ((Template.join ", ".toList (values.map (·.set d))).assign bs).1 = d.sets values own
  | [], _ => ⟨[], rfl, rfl⟩
  | [a], bs => ⟨[⟨bs.keyFor a.column, a.value⟩], rfl, rfl⟩
  | a :: a' :: values, bs => by
    obtain ⟨own, hl, h⟩ := assign_sets (a' :: values) (bs.bind a.column a.value).2
    obtain ⟨b', own, rfl⟩ := List.exists_cons_of_length_eq_add_one hl
    refine ⟨⟨bs.keyFor a.column, a.value⟩ :: b' :: own, by simpa using hl, ?_⟩
    rw [List.map_cons, List.map_cons, Template.join_cons_cons, sets_cons_cons, ← h]
    rfl

theorem slots_sets : ∀ {values : List Assignment} {own : List Binding}, own.length = values.length →
    (d.sets values own).slots = own
  | [], [], _ => rfl
  | [_], [_], _ => rfl
  | a :: a' :: values, b :: b' :: own, h => by
    have ih : (d.sets (a' :: values) (b' :: own)).slots = b' :: own := slots_sets (Nat.succ.inj h)
    rw [sets_cons_cons, Outline.slots_append]
    exact congrArg (b :: ·) ih

theorem spell_sets (f : Binding → Text) (values : List Assignment) (own : List Binding) :
    (d.sets values own).spell f = Text.join ", ".toList
      (List.zipWith (fun a s => d.quote a.column ++ " = ".toList ++ s) values (own.map f)) := by
  rw [sets, Template.spell_join, List.map_zipWith, List.zipWith_map_right]
  simp [Outline.spell]

/-! ## Updates -/

/-- An `UPDATE` with the given texts of its values. -/
def settingText (d : Dialect) (table : Text) (values : List Assignment) (texts : List Text)
    (cs : Conditions Condition) (limit : Option Text) : Text :=
  Text.join [' '] <|
    ["UPDATE".toList, d.quote table, "SET".toList, Text.join ", ".toList
      (List.zipWith (fun a s => d.quote a.column ++ " = ".toList ++ s) values texts)] ++
    d.whereClause cs ++ limitClause limit

section
variable (table : Text) (values : List Assignment) {ts : List Template} (hn : ts ≠ [])
  (limit : Option UInt64)

theorem slots_set : (Template.join ", ".toList (values.map (·.set d))).slots =
    values.map fun a => ⟨a.column, a.value⟩ := by
  rw [Template.slots_join, List.flatMap_map, ← List.flatMap_pure_eq_map]
  rfl

include hn

theorem update_eq : Sentence.update d table values ts limit =
    [.text "UPDATE".toList, .text [' '], .text table, .text [' '], .text "SET".toList, .text [' ']] ++
      (Template.join ", ".toList (values.map (·.set d)) ++ .text [' '] :: tail ts limit) := by
  obtain ⟨t, ts, rfl⟩ := List.exists_cons_of_ne_nil hn
  rfl

theorem slots_update : (Sentence.update d table values ts limit).slots =
    (values.map fun a => ⟨a.column, a.value⟩) ++ (tail ts limit).slots := by
  rw [update_eq table values hn, Outline.slots_append, Outline.slots_append, slots_set]
  rfl

theorem apart_update (ht : ':' ∉ table) (hv : ∀ a ∈ values, ':' ∉ a.column)
    (hfit : ∀ t ∈ ts, Template.Fit d t) :
    (Sentence.update d table values ts limit).Apart (fun c => isWordChar c = false) True := by
  have hset : (Template.join ", ".toList (values.map (·.set d))).Apart
      (fun c => isWordChar c = false) True := by
    refine Template.apart_join (by decide) ⟨' ', by decide, by decide⟩ fun t ht => ?_
    obtain ⟨a, ha, rfl⟩ := List.mem_map.mp ht
    have hc : ':' ∉ d.quote a.column := colon_not_mem_quote d.flavor (hv a ha)
    exact ⟨by simp [hc], .inl trivial, trivial⟩
  have htail : (tail ts limit).Apart (fun c => isWordChar c = false) True :=
    apart_clauses (fit_restriction hfit) limit
  have hrest : Outline.Apart (fun c => isWordChar c = false) False (.text [' '] :: tail ts limit) :=
    ⟨by decide, htail.mono fun _ => .inr ⟨' ', by decide, rfl⟩⟩
  rw [update_eq table values hn]
  refine ⟨by decide, by decide, ht, by decide, by decide, by decide, ?_⟩
  exact (hset.append hrest).mono fun _ => by simp

theorem spell_assign_update {cs : Conditions Condition} (hfit : ∀ t ∈ ts, Template.Fit d t)
    (h : ts.map (Template.inline d) = (cs.map d.conditionText).members id) (bs : Bindings)
    (hv : ∀ a ∈ values, isWord a.column = true) :
    ∃ own, List.Forall₂ Binding.Numbers (values.map fun a => ⟨a.column, a.value⟩) own ∧
      own <+: ((Sentence.update d (d.quote table) values ts limit).assign bs).1.slots ∧
      ((Sentence.update d (d.quote table) values ts limit).assign bs).1.spell d.resolved =
        d.settingText table values (own.map d.resolved) cs (limit.map fun m => d.lit (.unsigned m)) := by
  obtain ⟨own, hl, hown⟩ := assign_sets (d := d) values bs
  have hnum := Template.numbers_assign (Template.join ", ".toList (values.map (·.set d))) bs (by
    rw [slots_set]
    intro b hb
    obtain ⟨a, ha, rfl⟩ := List.mem_map.mp hb
    exact hv a ha)
  rw [slots_set, hown, slots_sets hl] at hnum
  have hassign : ∃ bs', ((Sentence.update d (d.quote table) values ts limit).assign bs).1 =
      [.text "UPDATE".toList, .text [' '], .text (d.quote table), .text [' '], .text "SET".toList,
        .text [' ']] ++ (d.sets values own ++ .text [' '] :: ((tail ts limit).assign bs').1) := by
    rw [update_eq _ values hn, Template.assign_append, Template.assign_append, ← hown]
    exact ⟨_, rfl⟩
  obtain ⟨bs', e⟩ := hassign
  refine ⟨own, hnum, ?_, ?_⟩
  · rw [e, Outline.slots_append, Outline.slots_append, slots_sets hl]
    exact List.prefix_append own _
  · have hw : d.whereClause cs ++ limitClause (limit.map fun m => d.lit (.unsigned m)) ≠ [] := by
      simp [whereClause]
    rw [settingText, List.append_assoc, Text.join_append (List.cons_ne_nil _ _) hw,
      ← spell_tail hfit limit hn h bs', ← spell_sets, e]
    simp [Outline.spell, Outline.spell_append, Text.join_cons]

end

/-! ## Writes -/

section
variable (hd : d.AddsNoColon) {table : Text} {values : List Assignment} (ht : isWord table = true)
  (hv : ∀ a ∈ values, isWord a.column = true ∧ ':' ∉ a.value.raw)
include hd ht hv

theorem insert_resolved (begun : Nat) (hne : values ≠ []) :
    ∃ st, d.compile begun (.insert table values) = (.ok st, begun + 1) ∧
      List.Forall₂ Binding.Numbers (values.map fun a => ⟨a.column, a.value⟩) st.bindings.entries ∧
      st.sql = Sentence.insertion (d.quote table) (values.map fun a => d.quote a.column)
        (st.bindings.entries.map d.resolved) ∧
      (':' ∈ st.sql ↔ ∃ a ∈ values, d.Stays ⟨a.column, a.value⟩) := by
  have hslots := Sentence.slots_insert d (d.quote table) values
  have hs : ∀ b ∈ (Sentence.insert d (d.quote table) values).slots,
      isWord b.key = true ∧ ':' ∉ d.lit b.value := by
    rw [hslots]
    intro b hb
    obtain ⟨a, ha, rfl⟩ := List.mem_map.mp hb
    exact ⟨(hv a ha).1, colon_not_mem_lit hd (hv a ha).2⟩
  have hap : (Sentence.insert d (d.quote table) values).Apart (fun c => isWordChar c = false) True := by
    rw [Sentence.insert_eq]
    apply Template.apart_closedRow (show isWordChar ',' = false by rfl)
    exact Sentence.colon_not_mem_insertHead d (not_mem_of_isWord ht rfl) fun a ha =>
      not_mem_of_isWord (hv a ha).1 rfl
  refine ⟨_, compile_ready (plan_insert d ht hne) begun, ?_, ?_, ?_⟩
  · rw [entries_complete, ← hslots]
    exact Template.numbers_assign _ .empty fun b hb => (hs b hb).1
  · rw [complete_eq_resolved hs hap, entries_complete, Sentence.insert_eq,
      Template.spell_assign_closedRow, Sentence.insertion_eq]
  · rw [colon_mem_complete hs hap, hslots]
    simp

theorem update_resolved {begun n : Nat} {cs : Conditions Condition} {limit : Option UInt64}
    {st : Statement} (hcs : ∀ c ∈ cs.leaves, isWord (Operator.ofKey c.key).1 = true ∧
      ∀ v ∈ c.values, ':' ∉ v.raw)
    (h : d.compile begun (.update table values cs limit) = (.ok st, n)) :
    ∃ own, List.Forall₂ Binding.Numbers (values.map fun a => ⟨a.column, a.value⟩) own ∧
      own <+: st.bindings.entries ∧
      st.sql = d.settingText table values (own.map d.resolved) cs
        (limit.map fun m => d.lit (.unsigned m)) ∧
      (':' ∈ st.sql ↔ ∃ a ∈ values, d.Stays ⟨a.column, a.value⟩) := by
  obtain ⟨t, hplan, rfl⟩ := ready_of_compile h
  obtain ⟨ts, hts, hn, rfl⟩ := update_ready ht hplan
  have hquiet : ∀ v, ':' ∉ v.raw → d.Quiet v := fun v hr w _ hi =>
    colon_not_mem_lit hd hr (hi.subset (colon_mem_placeholder w))
  obtain ⟨hinline, hfit⟩ := d.conditions_ok
    (fun c hc => ⟨(hcs c hc).1, fun v hv => hquiet v ((hcs c hc).2 v hv)⟩) hts
  have hslots := slots_update (d := d) (d.quote table) values hn limit
  have htail := isName_tail hfit limit hn
  have hraw := raw_tail limit (fun c hc => (hcs c hc).2) hts hn
  have hs : ∀ b ∈ (Sentence.update d (d.quote table) values ts limit).slots,
      isWord b.key = true ∧ ':' ∉ d.lit b.value := by
    rw [hslots]
    intro b hb
    rcases List.mem_append.mp hb with hb | hb
    · obtain ⟨a, ha, rfl⟩ := List.mem_map.mp hb
      exact ⟨(hv a ha).1, colon_not_mem_lit hd (hv a ha).2⟩
    · exact ⟨isWord_of_isName (htail b hb), colon_not_mem_lit hd (hraw b hb)⟩
  have hap := apart_update (d := d) (d.quote table) values hn limit
    (colon_not_mem_quote d.flavor (not_mem_of_isWord ht rfl))
    (fun a ha => not_mem_of_isWord (hv a ha).1 rfl) hfit
  obtain ⟨own, hnum, hpre, hspell⟩ := spell_assign_update table values hn limit hfit hinline .empty
    fun a ha => (hv a ha).1
  refine ⟨own, hnum, ?_, ?_, ?_⟩
  · rwa [entries_complete]
  · rw [complete_eq_resolved hs hap, hspell]
  · rw [colon_mem_complete hs hap, hslots]
    constructor
    · rintro ⟨b, hb, hstay⟩
      rcases List.mem_append.mp hb with hb | hb
      · obtain ⟨a, ha, rfl⟩ := List.mem_map.mp hb
        exact ⟨a, ha, hstay⟩
      · exact absurd hstay (not_stays_of_isName (htail b hb))
    · rintro ⟨a, ha, hstay⟩
      exact ⟨_, List.mem_append_left _ (List.mem_map_of_mem ha), hstay⟩

end

/-- **Placeholders of writes are resolved**, but for those of columns that consist of digits. Under words
and with values that have no colon, each value stands as its literal in the place of its column,
and so do the values of the conditions and the limit. What is left behind is the placeholder of a
column of digits, unless its value is written directly; the statement has a colon just if there is
such a column. -/
theorem write_resolved (hd : d.AddsNoColon) (begun : Nat) {table : Text} {values : List Assignment}
    (ht : isWord table = true) (hne : values ≠ [])
    (hv : ∀ a ∈ values, isWord a.column = true ∧ ':' ∉ a.value.raw) :
    (∃ st, d.compile begun (.insert table values) = (.ok st, begun + 1) ∧
      List.Forall₂ Binding.Numbers (values.map fun a => ⟨a.column, a.value⟩) st.bindings.entries ∧
      st.sql = Sentence.insertion (d.quote table) (values.map fun a => d.quote a.column)
        (st.bindings.entries.map d.resolved) ∧
      (':' ∈ st.sql ↔ ∃ a ∈ values, d.Stays ⟨a.column, a.value⟩)) ∧
    ∀ cs limit st n, (∀ c ∈ cs.leaves, isWord (Operator.ofKey c.key).1 = true ∧
        ∀ v ∈ c.values, ':' ∉ v.raw) →
      d.compile begun (.update table values cs limit) = (.ok st, n) →
      ∃ own, List.Forall₂ Binding.Numbers (values.map fun a => ⟨a.column, a.value⟩) own ∧
        own <+: st.bindings.entries ∧
        st.sql = d.settingText table values (own.map d.resolved) cs
          (limit.map fun m => d.lit (.unsigned m)) ∧
        (':' ∈ st.sql ↔ ∃ a ∈ values, d.Stays ⟨a.column, a.value⟩) :=
  ⟨insert_resolved hd ht hv begun hne, fun _ _ _ _ hcs h => update_resolved hd ht hv hcs h⟩

/-- Two columns of digits that ask for one key, one whose value is a call, and a column that only begins
with a digit. -/
theorem write_resolved_digits :
    let d : Dialect := .ofFlavor .mysql
    let values : List Assignment := [⟨"7".toList, .signed 1⟩, ⟨"7".toList, .text "a".toList⟩,
      ⟨"8".toList, .text "NOW()".toList⟩, ⟨"7x".toList, .text "it's".toList⟩]
    let cs : Conditions Condition := .leaf ⟨"9 >=".toList, .one (.unsigned 3)⟩ .nil
    (∀ a ∈ values, isWord a.column = true ∧ ':' ∉ a.value.raw) ∧
      (∃ st, d.compile 0 (.insert "t".toList values) = (.ok st, 1) ∧ ':' ∈ st.sql) ∧
      ∃ st, d.compile 0 (.update "t".toList values cs (some 2)) = (.ok st, 1) ∧ ':' ∈ st.sql ∧
        st.sql = ("UPDATE `t` SET `7` = :7:, `7` = ':71:', `8` = NOW(), `7x` = 'it\\'s' " ++
          "WHERE `9` >= 3 LIMIT 2").toList := by
  intro d values cs
  have hv : ∀ a ∈ values, isWord a.column = true ∧ ':' ∉ a.value.raw := by decide
  have hcs : ∀ c ∈ cs.leaves, isWord (Operator.ofKey c.key).1 = true ∧ ∀ v ∈ c.values, ':' ∉ v.raw := by
    decide
  have hstay : ∃ a ∈ values, d.Stays ⟨a.column, a.value⟩ := by decide
  obtain ⟨⟨st, hinsert, -, -, hcolon⟩, hupdate⟩ := write_resolved (addsNoColon_ofFlavor .mysql) 0
    (show isWord "t".toList = true by decide) (List.cons_ne_nil _ _) hv
  have hrun : d.compile 0 (.update "t".toList values cs (some 2)) = (.ok _, 1) := rfl
  obtain ⟨own, -, -, -, hcolon'⟩ := hupdate cs (some 2) _ 1 hcs hrun
  exact ⟨hv, ⟨st, hinsert, hcolon.mpr hstay⟩, _, hrun, hcolon'.mpr hstay, by decide +kernel⟩

/-- A column of digits keeps its placeholder, and an escape may bring a colon of its own. -/
theorem colon_left_behind :
    (let d : Dialect := .ofFlavor .mysql
      let values : List Assignment := [⟨"7".toList, .signed 1⟩]
      isWord "t".toList = true ∧ (∀ a ∈ values, isWord a.column = true ∧ ':' ∉ a.value.raw) ∧
        ∃ st, d.compile 0 (.insert "t".toList values) = (.ok st, 1) ∧ ':' ∈ st.sql ∧
          st.sql = "INSERT INTO `t` (`7`) VALUES (:7:)".toList) ∧
    let d : Dialect := ⟨.mysql, (':' :: ·), true⟩
    let values : List Assignment := [⟨"a".toList, .signed 1⟩]
    (∀ a ∈ values, isWord a.column = true ∧ ':' ∉ a.value.raw) ∧
      ∃ st, d.compile 0 (.insert "t".toList values) = (.ok st, 1) ∧ ':' ∈ st.sql ∧
        st.sql = "INSERT INTO `t` (`a`) VALUES (:1)".toList := by
  refine ⟨⟨by decide, by decide, _, rfl, ?_⟩, by decide, _, rfl, ?_⟩
  · decide +kernel
  · decide +kernel

end Dialect

end SqlForge
