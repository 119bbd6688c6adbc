import SqlForge.Statement
import SqlForge.Proofs.Filling
import SqlForge.Proofs.Values
import Mathlib.Data.List.Infix

/-!
# Rendering at once

A statement is written with placeholders that are filled in later; here its
values are rendered at once, as literals (`inline`). Both ways agree for a
template whose slots are apart and ask for names, if no literal spells the
placeholder of a name: each slot gets a key of its own (`assign`), filling acts
on it alone, and nothing behind its value changes it again (`complete_sql`).
-/

namespace SqlForge

/-! ## Literals -/

/-- `s` between single quotes, taken as it is. -/
def quoted (s : Text) : Text := '\'' :: s ++ ['\'']

namespace Dialect

/-- `s` as it is written for a value that leaves a placeholder: cleaned if the dialect cleans, and
trimmed after that. -/
def body (d : Dialect) (s : Text) : Text :=
  Text.trim Text.isPadding (if d.cleans then d.escape s else s)

/-- A value as it stands in the finished statement. -/
def lit (d : Dialect) : Value → Text
  | .null => "NULL".toList
  | .bool b => (if b then "TRUE" else "FALSE").toList
  | .signed n => d.body (Text.integer n.toInt)
  | .unsigned n => d.body (Text.natural n.toNat)
  | .double x => d.body x.text
  | .dateTime t => quoted (d.body t.text)
  | .text s =>
    if s = "NULL".toList then "NULL".toList
    else if s = [] then quoted []
    else if isCall s then d.call s
    else if isNumeral s then d.body s
    else quoted (d.body s)

/-- The literal of `v` does not spell the placeholder of a name. -/
def Quiet (d : Dialect) (v : Value) : Prop :=
  ∀ w, isName w = true → ¬ placeholder w <:+: d.lit v

end Dialect

/-- The text of a template with each value rendered in its place. -/
def Template.inline (d : Dialect) (t : Template) : Text := t.spell fun b => d.lit b.value

/-! ## Literals and placeholders -/

/-- Does `s` begin with the placeholder of a name? -/
def beginsPlaceholder : Text → Bool
  | ':' :: s => ((Text.cut? ':' s).map fun (w, _) => isName w).getD false
  | _ => false

theorem beginsPlaceholder_iff {s : Text} :
    beginsPlaceholder s = true ↔ ∃ w, isName w = true ∧ placeholder w <+: s := by
  constructor
  · intro h
    unfold beginsPlaceholder at h
    split at h
    · rename_i s
      cases hc : Text.cut? ':' s with
      | none => simp [hc] at h
      | some ab =>
        obtain ⟨a, b⟩ := ab
        rw [hc] at h
        exact ⟨a, h, b, by rw [Text.eq_of_cut? hc]; simp [placeholder]⟩
    · cases h
  · rintro ⟨w, hw, t, rfl⟩
    have hc : Text.cut? ':' (w ++ ':' :: t) = some (w, t) :=
      Text.cut?_append (colon_not_mem_of_isName hw) t
    simp [beginsPlaceholder, placeholder, hc, hw]

namespace Dialect

instance (d : Dialect) (v : Value) : Decidable (d.Quiet v) :=
  decidable_of_iff (∀ s ∈ (d.lit v).tails, beginsPlaceholder s = false) <| by
    constructor
    · intro h w hw hi
      obtain ⟨s, hp, hs⟩ := List.infix_iff_prefix_suffix.mp hi
      have := h s ((List.mem_tails _ _).mpr hs)
      rw [beginsPlaceholder_iff.mpr ⟨w, hw, hp⟩] at this
      cases this
    · intro h s hs
      apply Bool.eq_false_iff.mpr
      intro hb
      obtain ⟨w, hw, hp⟩ := beginsPlaceholder_iff.mp hb
      exact h w hw (hp.isInfix.trans ((List.mem_tails _ _).mp hs).isInfix)

theorem filling_of_not_call (d : Dialect) {v : Value} (h : isCall v.raw = false) :
    v.filling d.cleaner? = d.body v.raw := by
  unfold Value.filling cleaner? body
  cases d.cleans with
  | true => simp [h]
  | false => rfl

theorem lit_of_direct {d : Dialect} {v : Value} {s : Text} (h : d.direct? v = some s) :
    d.lit v = s := by
  unfold direct? at h
  cases v with
  | null => simpa [Value.isNull, lit] using h
  | bool b => simpa [Value.isNull, Value.isEmptyText, lit] using h
  | text t =>
    unfold lit
    by_cases hn : t = "NULL".toList
    · simpa [Value.isNull, hn] using h
    · by_cases he : t = []
      · simpa [Value.isNull, Value.isEmptyText, he, quoted] using h
      · simp only [Value.isNull, Value.isEmptyText, beq_iff_eq, hn, List.isEmpty_iff, he,
          ite_false] at h ⊢
        split at h
        · rename_i hc
          rw [if_pos hc]
          exact Option.some.inj h
        · cases h
  | signed | unsigned | double | dateTime => simp [Value.isNull, Value.isEmptyText] at h

theorem lit_of_placed {d : Dialect} {v : Value} (h : d.direct? v = none) :
    d.lit v = dress v (v.filling d.cleaner?) := by
  have hr : ∀ w : Value, w.text? = none → w.filling d.cleaner? = d.body w.raw := fun w hw =>
    filling_of_not_call d (Value.isCall_raw hw)
  unfold direct? at h
  cases v with
  | null => simp [Value.isNull] at h
  | bool b => simp [Value.isNull, Value.isEmptyText] at h
  | text t =>
    by_cases hn : t = "NULL".toList
    · simp [Value.isNull, hn] at h
    · by_cases he : t = []
      · simp [Value.isNull, Value.isEmptyText, he] at h
      · simp only [Value.isNull, Value.isEmptyText, beq_iff_eq, hn, List.isEmpty_iff, he,
          ite_false] at h
        split at h
        · cases h
        · rename_i hc
          have hc' : isCall (Value.text t).raw = false := Bool.eq_false_iff.mpr hc
          rw [filling_of_not_call d hc', lit, if_neg hn, if_neg he, if_neg hc]
          rfl
  | signed n => exact (hr (.signed n) rfl).symm
  | unsigned n => exact (hr (.unsigned n) rfl).symm
  | double x => exact (hr (.double x) rfl).symm
  | dateTime t =>
    rw [hr (.dateTime t) rfl]
    rfl

theorem filling_infix_lit {d : Dialect} {v : Value} (h : d.direct? v = none) :
    v.filling d.cleaner? <:+: d.lit v := by
  rw [lit_of_placed h, dress]
  split
  · exact List.infix_refl _
  · exact ⟨['\''], ['\''], rfl⟩

theorem fill_dress (e? : Option (Text → Text)) (v : Value) (es : List Binding) (s : Text) :
    Bindings.fillAll e? es (dress v s) = dress v (Bindings.fillAll e? es s) := by
  have hq : ':' ∉ ['\''] := by decide
  unfold dress
  split
  · rfl
  · change Bindings.fillAll e? es (['\''] ++ s ++ ['\'']) = _
    rw [Bindings.fillAll_append_plain e? hq, Bindings.fillAll_plain_append e? hq]
    rfl

end Dialect

/-! ## Keys for the slots -/

namespace Template

/-- The template in which each slot has the key under which its value is stored, and the bindings
with these values added. -/
def assign : Template → Bindings → Template × Bindings
  | [], bs => ([], bs)
  | .text s :: t, bs => (.text s :: (assign t bs).1, (assign t bs).2)
  | .slot b :: t, bs =>
    let (key, bs) := bs.bind b.key b.value
    (.slot ⟨key, b.value⟩ :: (assign t bs).1, (assign t bs).2)

theorem write_eq (d : Dialect) : ∀ (t : Template) (bs : Bindings),
    t.write d bs = ((t.assign bs).1.spell fun b => d.place b.value b.key, (t.assign bs).2)
  | [], _ => rfl
  | .text s :: t, bs => by
    rw [write, write_eq d t bs]
    rfl
  | .slot b :: t, bs => by
    rw [write, Bindings.bind]
    dsimp only
    rw [write_eq d t]
    rfl

theorem entries_assign : ∀ (t : Template) (bs : Bindings),
    (t.assign bs).2.entries = bs.entries ++ (t.assign bs).1.slots
  | [], bs => (List.append_nil _).symm
  | .text _ :: t, bs => entries_assign t bs
  | .slot b :: t, bs => by
    have ih := entries_assign t (bs.bind b.key b.value).2
    rw [Bindings.entries_bind, List.append_assoc] at ih
    exact ih

theorem values_assign : ∀ (t : Template) (bs : Bindings),
    (t.assign bs).1.slots.map Binding.value = t.slots.map Binding.value
  | [], _ => rfl
  | .text _ :: t, bs => values_assign t bs
  | .slot b :: t, _ => congrArg (b.value :: ·) (values_assign t _)

theorem spell_assign (g : Value → Text) : ∀ (t : Template) (bs : Bindings),
    ((t.assign bs).1.spell fun b => g b.value) = t.spell fun b => g b.value
  | [], _ => rfl
  | .text s :: t, bs => congrArg (s ++ ·) (spell_assign g t bs)
  | .slot b :: t, _ => congrArg (g b.value ++ ·) (spell_assign g t _)

theorem apart_assign {sep : Char → Prop} : ∀ {t : Template} {p : Prop} (bs : Bindings),
    t.Apart sep p → (t.assign bs).1.Apart sep p
  | [], _, _, _ => trivial
  | .text _ :: _, _, bs, ⟨hs, ht⟩ => ⟨hs, apart_assign bs ht⟩
  | .slot _ :: _, _, _, ⟨hp, ht⟩ => ⟨hp, apart_assign _ ht⟩

theorem keys_assign {P : Text → Prop} (hP : ∀ (bs : Bindings) (key : Text), P key → P (bs.keyFor key)) :
    ∀ (t : Template) (bs : Bindings), (∀ b ∈ t.slots, P b.key) → ∀ b ∈ (t.assign bs).1.slots, P b.key
  | [], _, _, _, hb => by cases hb
  | .text _ :: t, bs, h, b, hb => keys_assign hP t bs h b hb
  | .slot a :: t, bs, h, b, hb => by
    rcases List.mem_cons.mp hb with rfl | hb
    · exact hP bs a.key (h a List.mem_cons_self)
    · exact keys_assign hP t _ (fun b' hb' => h b' (List.mem_cons_of_mem _ hb')) b hb

theorem assign_append : ∀ (t u : Template) (bs : Bindings),
    assign (t ++ u) bs =
      ((t.assign bs).1 ++ (assign u (t.assign bs).2).1, (assign u (t.assign bs).2).2)
  | [], _, _ => rfl
  | .text s :: t, u, bs => by
    rw [List.cons_append, assign, assign_append t u bs]
    rfl
  | .slot b :: t, u, bs => by
    rw [List.cons_append, assign, Bindings.bind]
    dsimp only
    rw [assign_append t u]
    rfl

theorem assign_row : ∀ (l : List Binding) (bs : Bindings),
    ∃ l' : List Binding, l'.length = l.length ∧ ((row l).assign bs).1 = row l'
  | [], _ => ⟨[], rfl, rfl⟩
  | [b], bs => ⟨[⟨bs.keyFor b.key, b.value⟩], rfl, rfl⟩
  | b :: c :: l, bs => by
    obtain ⟨l', hl, h⟩ := assign_row (c :: l) (bs.bind b.key b.value).2
    obtain ⟨c', l', rfl⟩ := List.exists_cons_of_length_eq_add_one hl
    refine ⟨⟨bs.keyFor b.key, b.value⟩ :: c' :: l', by simpa using hl, ?_⟩
    rw [row_cons_cons, row_cons_cons, ← h]
    rfl

theorem assign_closedRow (head : Text) (l : List Binding) (bs : Bindings) :
    ∃ l' : List Binding, l'.length = l.length ∧ ((closedRow head l).assign bs).1 = closedRow head l' := by
  obtain ⟨l', hlen, hrow⟩ := assign_row l bs
  refine ⟨l', hlen, ?_⟩
  rw [closedRow, assign, assign_append, hrow]
  rfl

end Template

/-! ## Both ways agree -/

namespace Dialect

/-- All literals are quiet. That of the last value need not be if the value leaves a placeholder
behind, because nothing is filled in after it. -/
def Settled (d : Dialect) (vs : List Value) : Prop :=
  ∀ pre v post, vs = pre ++ v :: post → d.Quiet v ∨ d.direct? v = none ∧ post = []

theorem settled_of_quiet {d : Dialect} {vs : List Value} (h : ∀ v ∈ vs, d.Quiet v) : d.Settled vs := by
  rintro pre v post rfl
  exact .inl (h v (by simp))

theorem settled_concat {d : Dialect} {vs : List Value} {v : Value} (h : ∀ v ∈ vs, d.Quiet v)
    (hv : d.direct? v = none) : d.Settled (vs ++ [v]) := by
  intro pre x post e
  obtain rfl | ⟨post, y, rfl⟩ := List.eq_nil_or_concat post
  · have hx : v = x := by
      have hl := congrArg List.getLast? e
      simpa using hl
    exact .inr ⟨hx ▸ hv, rfl⟩
  · rw [List.concat_eq_append, ← List.cons_append, ← List.append_assoc] at e
    have hi := congrArg List.dropLast e
    rw [List.dropLast_concat, List.dropLast_concat] at hi
    exact .inl (h x (by simp [hi]))

/-- What a value leaves behind in the text becomes its literal. -/
theorem fill_place {d : Dialect} {pre post : List Binding} {b : Binding}
    (hname : ∀ b' ∈ pre ++ b :: post, isName b'.key = true)
    (hnd : ((pre ++ b :: post).map Binding.key).Nodup)
    (hv : d.Quiet b.value ∨ d.direct? b.value = none ∧ post = []) :
    Bindings.fillAll d.cleaner? (pre ++ b :: post) (d.place b.value b.key) = d.lit b.value := by
  cases hd : d.direct? b.value with
  | some s =>
    have hq : d.Quiet b.value := hv.resolve_right fun h => by rw [hd] at h; cases h.1
    rw [place, hd, Option.getD_some, lit_of_direct hd]
    apply Bindings.fillAll_of_clean
    intro b' hb' _ hi
    exact hq b'.key (hname b' hb') (by rw [lit_of_direct hd]; exact hi)
  | none =>
    have hb : isName b.key = true := hname b (by simp)
    have hpost : ∀ b' ∈ post, b'.isOrdinal = false →
        ¬ b'.placeholder <:+: b.value.filling d.cleaner? := by
      intro b' hb' _ hi
      rcases hv with hq | ⟨-, rfl⟩
      · exact hq b'.key (hname b' (by simp [hb'])) (hi.trans (filling_infix_lit hd))
      · cases hb'
    have hf := Bindings.fillAll_placeholder_of_split d.cleaner? (Bindings.key_ne_of_nodup hnd)
      (colon_not_mem_of_isName hb) (not_isOrdinal_of_isName hb) hpost
    rw [place, hd, Option.getD_none, fill_dress, lit_of_placed hd]
    exact congrArg (dress b.value) hf

theorem entries_complete (d : Dialect) (n : Nat) (t : Template) :
    (d.complete n t).bindings.entries = (t.assign .empty).1.slots := by
  rw [complete, t.write_eq]
  exact t.entries_assign .empty

/-- A finished statement is its template with what each slot leaves behind filled by itself. -/
theorem complete_spell {d : Dialect} {t : Template} {sep : Char → Prop} (ht : t.Apart sep True)
    (hsep : ∀ c, sep c → ∀ b ∈ (t.assign .empty).1.slots, c ∉ b.key) (n : Nat) :
    (d.complete n t).sql = (t.assign .empty).1.spell fun b =>
      Bindings.fillAll d.cleaner? (t.assign .empty).1.slots (d.place b.value b.key) := by
  have hentries : (t.assign .empty).2.entries = (t.assign .empty).1.slots := t.entries_assign .empty
  have hsql : (d.complete n t).sql = (t.assign .empty).2.fill d.cleaner?
      ((t.assign .empty).1.spell fun b => d.place b.value b.key) := by
    rw [complete, t.write_eq]
    rfl
  rw [hsql, Bindings.fill, hentries]
  exact Bindings.fillAll_spell _ hsep _ (Template.apart_assign .empty ht)

/-- **Filling in late is rendering at once.** -/
theorem complete_sql {d : Dialect} {t : Template} (ht : t.Apart (fun c => isWordChar c = false) True)
    (hname : ∀ b ∈ t.slots, isName b.key = true) (hv : d.Settled (t.slots.map Binding.value))
    (n : Nat) : (d.complete n t).sql = t.inline d := by
  have hn := t.keys_assign (P := fun k => isName k = true) (fun bs _ => bs.isName_keyFor) .empty hname
  have hnd := (t.assign .empty).2.nodup_keys
  have hvs := t.values_assign .empty
  rw [Bindings.Raw.keys, t.entries_assign] at hnd
  rw [complete_spell ht (fun c hc b hb => ?_) n, Template.inline, ← t.spell_assign d.lit .empty]
  · apply Outline.spell_congr
    intro b hb
    obtain ⟨pre, post, e⟩ := List.append_of_mem hb
    rw [e] at hn hnd hvs ⊢
    refine fill_place hn hnd ?_
    have := hv (pre.map Binding.value) b.value (post.map Binding.value) (by rw [← hvs]; simp)
    rwa [List.map_eq_nil_iff] at this
  · exact not_mem_of_isWord (isWord_of_isName (hn b hb)) hc

end Dialect

/-! ## Parts of a template -/

/-- A part of a template that can be rendered at once, wherever it stands. -/
structure Template.Fit (d : Dialect) (t : Template) : Prop where
  apart : t.Apart (fun c => isWordChar c = false) True
  slots : ∀ b ∈ t.slots, isName b.key = true ∧ d.Quiet b.value

namespace Template.Fit

variable {d : Dialect}

theorem ofText {s : Text} (hs : ':' ∉ s) : Fit d (ofText s) :=
  ⟨⟨hs, trivial⟩, fun b hb => by cases hb⟩

theorem slot {s : Text} (hs : ':' ∉ s) {b : Binding} (hk : isName b.key = true)
    (hv : d.Quiet b.value) : Fit d [.text s, .slot b] := by
  refine ⟨⟨hs, .inl trivial, trivial⟩, ?_⟩
  intro b' hb'
  cases List.mem_singleton.mp hb'
  exact ⟨hk, hv⟩

theorem join {s : Text} (hs : ':' ∉ s) (hsep : ∃ c ∈ s, isWordChar c = false) {ts : List Template}
    (h : ∀ t ∈ ts, Fit d t) : Fit d (join s ts) := by
  refine ⟨apart_join hs hsep fun t ht => (h t ht).apart, ?_⟩
  intro b hb
  rw [slots_join] at hb
  obtain ⟨t, ht, hb⟩ := List.mem_flatMap.mp hb
  exact (h t ht).slots b hb

theorem closedRow {head : Text} (hh : ':' ∉ head) {l : List Binding}
    (h : ∀ b ∈ l, isName b.key = true ∧ d.Quiet b.value) : Fit d (closedRow head l) := by
  refine ⟨apart_closedRow (show isWordChar ',' = false by rfl) hh l, ?_⟩
  rw [slots_closedRow]
  exact h

theorem complete {t : Template} (h : Fit d t) (n : Nat) : (d.complete n t).sql = t.inline d := by
  refine Dialect.complete_sql h.apart (fun b hb => (h.slots b hb).1) (Dialect.settled_of_quiet ?_) n
  intro v hv
  obtain ⟨b, hb, rfl⟩ := List.mem_map.mp hv
  exact (h.slots b hb).2

/-- No placeholder of a bound value is left in the finished text. -/
theorem no_placeholder {t : Template} (h : Fit d t) (n : Nat) {key : Text}
    (hk : key ∈ (d.complete n t).bindings.keys) : ¬ placeholder key <:+: (d.complete n t).sql := by
  have hname : isName key = true := by
    obtain ⟨b, hb, rfl⟩ := List.mem_map.mp hk
    rw [d.entries_complete] at hb
    exact t.keys_assign (P := fun k => isName k = true) (fun bs _ => bs.isName_keyFor) .empty
      (fun b hb => (h.slots b hb).1) b hb
  rw [h.complete, Template.inline]
  apply Bindings.not_infix_spell hname (fun c hc => not_mem_of_isWord (isWord_of_isName hname) hc)
    h.apart
  intro b hb
  exact (h.slots b hb).2 key hname

end Template.Fit

end SqlForge
