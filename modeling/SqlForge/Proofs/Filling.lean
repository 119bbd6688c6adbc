import SqlForge.Proofs.Bindings
import SqlForge.Proofs.Outlines

/-!
# Filling in

Values are filled in one after the other, each in the whole text that the ones
before it have left. In an outline whose slots are kept apart, no placeholder
can come about across two parts, so filling acts on each slot alone
(`fillAll_spell`); there a placeholder ends as the filling of its own value.
-/

namespace SqlForge

namespace Bindings

variable (e? : Option (Text → Text))

/-! ## Filling one value -/

theorem isOrdinal_congr {b b' : Binding} (h : b.key = b'.key) : b.isOrdinal = b'.isOrdinal := by
  rw [Binding.isOrdinal, Binding.isOrdinal, h]

theorem fillOne_of_clean {b : Binding} {s : Text}
    (h : b.isOrdinal = false → ¬ b.placeholder <:+: s) : fillOne e? s b = s := by
  unfold fillOne
  split
  · rfl
  · rename_i hb
    exact Text.replace_of_no_occurrence _ (h (Bool.eq_false_iff.mpr hb))

theorem fillOne_append {b : Binding} {s t : Text} (h : ¬ Text.Straddles b.placeholder s t) :
    fillOne e? (s ++ t) b = fillOne e? s b ++ fillOne e? t b := by
  unfold fillOne
  split
  · rfl
  · exact Text.replace_append (placeholder_ne_nil _) _ h

theorem fillOne_of_no_colon {s : Text} (hs : ':' ∉ s) (b : Binding) : fillOne e? s b = s :=
  fillOne_of_clean e? fun _ hi => hs (hi.subset (colon_mem_placeholder b.key))

theorem fillOne_placeholder {b : Binding} (h : b.isOrdinal = false) :
    fillOne e? b.placeholder b = b.value.filling e? := by
  have hr := Text.replace_hit (placeholder_ne_nil b.key) (b.value.filling e?) []
  rw [List.append_nil, Text.replace_nil, List.append_nil] at hr
  rw [fillOne, if_neg (by simp [h])]
  exact hr

/-! ## Filling all values -/

theorem fillAll_cons (b : Binding) (es : List Binding) (s : Text) :
    fillAll e? (b :: es) s = fillAll e? es (fillOne e? s b) := rfl

theorem fillAll_append (es es' : List Binding) (s : Text) :
    fillAll e? (es ++ es') s = fillAll e? es' (fillAll e? es s) := List.foldl_append

theorem fillAll_of_clean {s : Text} : ∀ {es : List Binding},
    (∀ b ∈ es, b.isOrdinal = false → ¬ b.placeholder <:+: s) → fillAll e? es s = s
  | [], _ => rfl
  | b :: es, h => by
    rw [fillAll_cons, fillOne_of_clean e? (h b List.mem_cons_self)]
    exact fillAll_of_clean fun b' hb' => h b' (List.mem_cons_of_mem _ hb')

theorem fillAll_of_no_colon {s : Text} (hs : ':' ∉ s) (es : List Binding) : fillAll e? es s = s :=
  fillAll_of_clean e? fun b _ _ hi => hs (hi.subset (colon_mem_placeholder b.key))

theorem fillAll_nil (es : List Binding) : fillAll e? es [] = [] := fillAll_of_no_colon e? (by simp) es

theorem fillAll_plain_append {s : Text} (hs : ':' ∉ s) : ∀ (es : List Binding) (t : Text),
    fillAll e? es (s ++ t) = s ++ fillAll e? es t
  | [], _ => rfl
  | b :: es, t => by
    rw [fillAll_cons, fillOne_append e? (not_straddles_of_left hs t), fillOne_of_no_colon e? hs,
      fillAll_plain_append hs es, fillAll_cons]

theorem fillAll_append_plain {t : Text} (ht : ':' ∉ t) : ∀ (es : List Binding) (s : Text),
    fillAll e? es (s ++ t) = fillAll e? es s ++ t
  | [], _ => rfl
  | b :: es, s => by
    rw [fillAll_cons, fillOne_append e? (not_straddles_of_right ht s), fillOne_of_no_colon e? ht,
      fillAll_append_plain ht es, fillAll_cons]

/-- Filling works on both sides of a character that no key has. -/
theorem fillAll_barrier {c : Char} (hc : c ≠ ':') : ∀ {es : List Binding}, (∀ b ∈ es, c ∉ b.key) →
    ∀ s t : Text, fillAll e? es (s ++ c :: t) = fillAll e? es s ++ c :: fillAll e? es t
  | [], _, _, _ => rfl
  | b :: es, h, s, t => by
    have hb : c ∉ b.placeholder := not_mem_placeholder hc (h b List.mem_cons_self)
    have hs : ':' ∉ [c] := by simp [Ne.symm hc]
    have ht : fillOne e? (c :: t) b = c :: fillOne e? t b := by
      have ha := fillOne_append e? (not_straddles_of_left (k := b.key) hs t)
      rwa [fillOne_of_no_colon e? hs] at ha
    rw [fillAll_cons, fillOne_append e? (not_straddles_of_barrier hb s t), ht,
      fillAll_barrier hc (fun b' hb' => h b' (List.mem_cons_of_mem _ hb')), fillAll_cons, fillAll_cons]

theorem fillAll_between {es : List Binding} {s : Text} (hs : ':' ∉ s)
    (hc : ∃ c ∈ s, ∀ b ∈ es, c ∉ b.key) (a t : Text) :
    fillAll e? es (a ++ (s ++ t)) = fillAll e? es a ++ (s ++ fillAll e? es t) := by
  obtain ⟨c, hcs, hc⟩ := hc
  obtain ⟨p, q, rfl⟩ := List.append_of_mem hcs
  have hne : c ≠ ':' := fun e => hs (e ▸ hcs)
  have hp : ':' ∉ p := fun h => hs (List.mem_append_left _ h)
  have hq : ':' ∉ q := fun h => hs (List.mem_append_right _ (List.mem_cons_of_mem _ h))
  have e : a ++ (p ++ c :: q ++ t) = (a ++ p) ++ c :: (q ++ t) := by simp
  rw [e, fillAll_barrier e? hne hc, fillAll_append_plain e? hp, fillAll_plain_append e? hq]
  simp

/-! ## Filling an outline -/

section
variable {α : Type} {es : List Binding} {sep : Char → Prop}
  (hsep : ∀ c, sep c → ∀ b ∈ es, c ∉ b.key) (f : α → Text)
include hsep

/-- What the last slot has spelled waits as `a` for a fixed text that closes it off. -/
theorem fillAll_append_spell : ∀ (o : Outline α) (ready : Prop) (a : Text), o.Apart sep ready →
    (ready → a = []) →
    fillAll e? es (a ++ o.spell f) = fillAll e? es a ++ o.spell fun x => fillAll e? es (f x)
  | [], _, a, _, _ => by rw [Outline.spell, Outline.spell, List.append_nil, List.append_nil]
  | .text s :: o, ready, a, ⟨hs, ho⟩, ha => by
    have rest : (ready ∨ ∃ c ∈ s, sep c) → fillAll e? es (Outline.spell f o) =
        Outline.spell (fun x => fillAll e? es (f x)) o := by
      intro hr
      have := fillAll_append_spell o _ [] ho fun _ => rfl
      rwa [List.nil_append, fillAll_nil, List.nil_append] at this
    rw [Outline.spell, Outline.spell]
    -- A separating text closes off what waits; any other text joins it.
    by_cases hb : ∃ c ∈ s, sep c
    · obtain ⟨c, hcs, hc⟩ := hb
      rw [fillAll_between e? hs ⟨c, hcs, hsep c hc⟩, rest (.inr ⟨c, hcs, hc⟩)]
    · by_cases hr : ready
      · rw [ha hr, List.nil_append, fillAll_nil, List.nil_append, fillAll_plain_append e? hs, rest (.inl hr)]
      · have := fillAll_append_spell o _ (a ++ s) ho fun e => absurd e (by simp [hr, hb])
        rw [← List.append_assoc, this, fillAll_append_plain e? hs, List.append_assoc]
  | .slot x :: o, ready, a, ⟨hr, ho⟩, ha => by
    have := fillAll_append_spell o False (f x) ho fun e => e.elim
    rw [Outline.spell, Outline.spell, ha hr, List.nil_append, fillAll_nil, List.nil_append, this]

/-- **Filling acts on slots.** What each slot of an outline spells is filled by itself, and the fixed
texts stay. -/
theorem fillAll_spell {o : Outline α} (h : o.Apart sep True) :
    fillAll e? es (o.spell f) = o.spell fun x => fillAll e? es (f x) := by
  have := fillAll_append_spell e? hsep f o True [] h fun _ => rfl
  rwa [List.nil_append, fillAll_nil, List.nil_append] at this

end

/-- A placeholder that no slot spells is spelled nowhere: to fill in nothing for it changes no slot,
and hence not the whole. -/
theorem not_infix_spell {α : Type} {sep : Char → Prop} {key : Text} (hk : isName key = true)
    (hsep : ∀ c, sep c → c ∉ key) {f : α → Text} {o : Outline α} (ho : o.Apart sep True)
    (h : ∀ a ∈ o.slots, ¬ placeholder key <:+: f a) : ¬ placeholder key <:+: o.spell f := by
  let b : Binding := ⟨key, .text []⟩
  have hb : b.isOrdinal = false := not_isOrdinal_of_isName hk
  have hfill : fillAll none [b] (o.spell f) = o.spell f := by
    rw [fillAll_spell none (fun c hc b' hb' => ?_) f ho]
    · apply Outline.spell_congr
      intro a ha
      exact fillAll_of_clean none fun b' hb' _ => by rw [List.mem_singleton.mp hb']; exact h a ha
    · rw [List.mem_singleton.mp hb']
      exact hsep c hc
  rw [fillAll_cons, fillOne, if_neg (by simp [hb])] at hfill
  exact Text.not_infix_of_replace_nil (placeholder_ne_nil key) hfill

/-! ## Filling a placeholder -/

theorem key_ne_of_nodup {pre post : List Binding} {b : Binding}
    (h : ((pre ++ b :: post).map Binding.key).Nodup) : ∀ b' ∈ pre, b'.key ≠ b.key := by
  intro b' hb' e
  rw [List.map_append, List.map_cons, List.nodup_append] at h
  exact h.2.2 b'.key (List.mem_map_of_mem hb') b.key List.mem_cons_self e

/-- A placeholder becomes the filling of its value, if the values behind it leave that as it is. -/
theorem fillAll_placeholder_of_split {pre post : List Binding} {b : Binding}
    (hpre : ∀ b' ∈ pre, b'.key ≠ b.key) (hk : ':' ∉ b.key) (hb : b.isOrdinal = false)
    (hpost : ∀ b' ∈ post, b'.isOrdinal = false → ¬ b'.placeholder <:+: b.value.filling e?) :
    fillAll e? (pre ++ b :: post) b.placeholder = b.value.filling e? := by
  have hleft : fillAll e? pre b.placeholder = b.placeholder :=
    fillAll_of_clean e? fun b' hb' _ hi => hpre b' hb' (key_eq_of_occurrence hk hi)
  rw [fillAll_append, hleft, fillAll_cons, fillOne_placeholder e? hb, fillAll_of_clean e? hpost]

/-- What stands for the placeholder of `key` when all values are filled in at once. -/
def replacement (bs : Bindings) (key : Text) : Text :=
  match bs.get? key with
  | some v => if (Binding.mk key v).isOrdinal then placeholder key else v.filling e?
  | none => placeholder key

theorem get?_perm {bs bs' : Bindings} (hp : bs'.entries.Perm bs.entries) (key : Text) :
    bs'.get? key = bs.get? key := by
  apply Option.ext
  intro v
  rw [get?_eq_some_iff, get?_eq_some_iff, hp.mem_iff]

section
variable {bs : Bindings} (hclean : ∀ b ∈ bs.entries, ∀ b' ∈ bs.entries, b'.isOrdinal = false →
  ¬ b'.placeholder <:+: b.value.filling e?)
include hclean

theorem fill_placeholder {key : Text} (hkey : ':' ∉ key) :
    bs.fill e? (placeholder key) = bs.replacement e? key := by
  unfold replacement
  cases hf : bs.get? key with
  | none =>
    apply fillAll_of_clean
    intro b hb _ hi
    have hfree := get?_eq_none_iff.mp hf
    exact hfree (key_eq_of_occurrence hkey hi ▸ List.mem_map_of_mem hb)
  | some v =>
    have hb := get?_eq_some_iff.mp hf
    obtain ⟨pre, post, he⟩ := List.append_of_mem hb
    change _ = if (Binding.mk key v).isOrdinal = true then _ else _
    by_cases ho : (Binding.mk key v).isOrdinal = true
    · rw [if_pos ho]
      apply fillAll_of_clean
      intro b' _ ho' hi
      have hsame : b'.isOrdinal = (Binding.mk key v).isOrdinal :=
        isOrdinal_congr (key_eq_of_occurrence hkey hi)
      rw [hsame, ho] at ho'
      cases ho'
    · rw [if_neg ho]
      have hnd := bs.nodup_keys
      rw [Raw.keys, he] at hnd
      have hpost : ∀ b' ∈ post, b' ∈ bs.entries := fun b' hb' => by simp [he, hb']
      have hs := fillAll_placeholder_of_split e? (key_ne_of_nodup hnd) hkey
        (Bool.eq_false_iff.mpr ho) fun b' hb' => hclean _ hb b' (hpost b' hb')
      rw [← he] at hs
      exact hs

theorem fill_outline {sep : Char → Prop} (hsep : ∀ c, sep c → ∀ key ∈ bs.keys, c ∉ key)
    {o : Outline Text} (ho : o.Apart sep True) (hn : ∀ key ∈ o.slots, ':' ∉ key) :
    bs.fill e? (o.spell placeholder) = o.spell (bs.replacement e?) := by
  have hb : ∀ c, sep c → ∀ b ∈ bs.entries, c ∉ b.key := fun c hc b hb =>
    hsep c hc b.key (List.mem_map_of_mem hb)
  rw [fill, fillAll_spell e? hb placeholder ho]
  exact Outline.spell_congr fun key hkey => fill_placeholder e? hclean (hn key hkey)

end

/-- **Filling in one by one is filling in at once.** No filling may hold the placeholder of a key, and
each text between two placeholders needs a character that no key has. Then the order of the values
does not matter, and they may have come in any order. -/
theorem fill_at_once {bs : Bindings} {o : Outline Text}
    (ho : o.Apart (fun c => ∀ key ∈ bs.keys, c ∉ key) True)
    (hn : ∀ key ∈ o.slots, ':' ∉ key)
    (hclean : ∀ b ∈ bs.entries, ∀ b' ∈ bs.entries, b'.isOrdinal = false →
      ¬ b'.placeholder <:+: b.value.filling e?) :
    bs.fill e? (o.spell placeholder) = o.spell (bs.replacement e?) ∧
      (∀ bs' : Bindings, bs'.entries.Perm bs.entries →
        bs'.fill e? (o.spell placeholder) = bs.fill e? (o.spell placeholder)) ∧
      ∀ es : List Binding, es.Perm bs.entries → ∃ bs' : Bindings, bs'.entries = es := by
  have hfill := fill_outline e? hclean (fun _ hc => hc) ho hn
  refine ⟨hfill, fun bs' hp => ?_, fun es hp => ?_⟩
  · have hkeys : ∀ key, key ∈ bs'.keys ↔ key ∈ bs.keys := fun key => (hp.map Binding.key).mem_iff
    have hclean' : ∀ b ∈ bs'.entries, ∀ b' ∈ bs'.entries, b'.isOrdinal = false →
        ¬ b'.placeholder <:+: b.value.filling e? := fun b hb b' hb' =>
      hclean b (hp.mem_iff.mp hb) b' (hp.mem_iff.mp hb')
    rw [hfill, fill_outline e? hclean' (fun c hc key h => hc key ((hkeys key).mp h)) ho hn]
    apply Outline.spell_congr
    intro key _
    rw [replacement, replacement, get?_perm hp]
  · obtain ⟨hnd, hbare⟩ := exists_entries_iff.mp ⟨bs, rfl⟩
    refine exists_entries_iff.mpr ⟨(hp.map Binding.key).nodup_iff.mpr hnd, fun b hb => ?_⟩
    exact hbare b (hp.mem_iff.mp hb)

/-- A key twice, a key of digits, a key without value, and fillings with colons of their own. -/
theorem fill_at_once_colons :
    let bs := (((Bindings.empty.bind "at".toList (.text "8:30".toList)).2.bind "7".toList
      (.bool true)).2.bind "by".toList (.text "' :x".toList)).2
    let o : Outline Text := [.text "a ".toList, .slot "at".toList, .text " = ".toList,
      .slot "by".toList, .text ", ".toList, .slot "7".toList, .text "-".toList, .slot "x".toList,
      .text " ".toList, .slot "at".toList]
    o.Apart (fun c => ∀ key ∈ bs.keys, c ∉ key) True ∧
      bs.fill (some Flavor.sqlite.escape) (o.spell placeholder) =
        "a 8:30 = '' :x, :7:-:x: 8:30".toList := by
  intro bs o
  have ho : o.Apart (fun c => ∀ key ∈ bs.keys, c ∉ key) True := by decide
  have h := fill_at_once (some Flavor.sqlite.escape) ho (by decide) (by decide)
  exact ⟨ho, h.1.trans (by decide)⟩

end Bindings

end SqlForge
