import SqlForge.Bindings
import SqlForge.Proofs.Words
import Mathlib.Data.List.Nodup
import Mathlib.Data.List.Perm.Subperm

/-!
# Keys of bindings

A new value takes its key from what the index knows, and the index gets a note of it. As long as the
notes agree with the entries, a key that the index does not know is free: `bs.size` keys cannot hold
the wanted key together with all `bs.size` numbered forms of it that are tried. The note of a free
key hides no other, so entries and index agree again. Hence the keys of bindings are distinct, the
index has the place of each, and keys are words or names if the wanted keys are.
-/

namespace SqlForge.Bindings

/-! ## Colons around a key -/

/-- `base` is `key` without the colons around it. -/
def Bared (key base : Text) : Prop :=
  (∃ m n, key = List.replicate m ':' ++ (base ++ List.replicate n ':')) ∧
    base.head? ≠ some ':' ∧ base.getLast? ≠ some ':'

theorem bared_trim (key : Text) : Bared key (Text.trim (· == ':') key) := by
  obtain ⟨l, r, hs, hl, hr, hhead, hlast⟩ := Text.exists_trim (· == ':') key
  have hcolons : ∀ s : Text, (∀ c ∈ s, (c == ':') = true) → s = List.replicate s.length ':' :=
    fun s h => List.eq_replicate_of_mem fun c hc => by simpa using h c hc
  refine ⟨⟨l.length, r.length, ?_⟩, fun e => ?_, fun e => ?_⟩
  · rwa [← hcolons l hl, ← hcolons r hr]
  · simpa using hhead ':' e
  · simpa using hlast ':' e

theorem trim_of_bared {key base : Text} (h : Bared key base) : Text.trim (· == ':') key = base := by
  obtain ⟨⟨m, n, rfl⟩, hhead, hlast⟩ := h
  have hcolon : ∀ k, ∀ c ∈ List.replicate k ':', (c == ':') = true := fun k c hc => by
    simp [(List.mem_replicate.mp hc).2]
  apply Text.trim_between (hcolon m) (hcolon n)
  · intro c hc
    by_contra hne
    simp only [Bool.not_eq_false, beq_iff_eq] at hne
    exact hhead (hne ▸ hc)
  · intro c hc
    by_contra hne
    simp only [Bool.not_eq_false, beq_iff_eq] at hne
    exact hlast (hne ▸ hc)

theorem trim_colon_of_isWord {key : Text} (h : isWord key = true) :
    Text.trim (· == ':') key = key :=
  Text.trim_of_none fun c hc => by simpa using ne_of_isWordChar (isWordChar_of_mem h hc) rfl

namespace Raw

def keys (bs : Raw) : List Text := bs.entries.map Binding.key

theorem keys_add (bs : Raw) (key : Text) (v : Value) :
    (bs.add key v).keys = bs.keys ++ [bs.keyFor key] := by
  simp [add, keys]

theorem length_keys (bs : Raw) : bs.keys.length = bs.size := List.length_map _

theorem place?_add (bs : Raw) (key : Text) (v : Value) (k : Text) :
    (bs.add key v).place? k = if k = bs.keyFor key then some bs.size else bs.place? k := by
  by_cases hk : k = bs.keyFor key
  · simp [place?, add, hk]
  · have hne : (k == bs.keyFor key) = false := by simpa using hk
    simp [place?, add, List.lookup_cons, hk, hne]

/-- The index has the place of each key, and no other notes. -/
def Coherent (bs : Raw) : Prop := ∀ k i, bs.place? k = some i ↔ bs.keys[i]? = some k

/-! ## The key is free -/

theorem exists_free (bs : Raw) {base : Text} (h : base ∈ bs.keys) :
    ∃ n ∈ List.range' bs.size bs.size, base ++ Text.natural n ∉ bs.keys := by
  by_contra hall
  -- The wanted key and all its numbered forms would be more keys than there are.
  let names := (List.range' bs.size bs.size).map fun n => base ++ Text.natural n
  have hsub : base :: names ⊆ bs.keys := by
    intro k hk
    rcases List.mem_cons.mp hk with rfl | hk
    · exact h
    · obtain ⟨n, hn, rfl⟩ := List.mem_map.mp hk
      by_contra hf
      exact hall ⟨n, hn, hf⟩
  have hnd : (base :: names).Nodup := by
    refine List.nodup_cons.mpr ⟨?_, ?_⟩
    · intro hb
      obtain ⟨n, -, hn⟩ := List.mem_map.mp hb
      exact Text.natural_ne_nil n (by simpa using hn)
    · refine List.Nodup.map (fun m n e => ?_) List.nodup_range'
      exact Text.natural_injective (List.append_cancel_left e)
  have hl := (List.subperm_of_subset hnd hsub).length_le
  simp only [List.length_cons, names, List.length_map, List.length_range', length_keys] at hl
  omega

namespace Coherent

variable {bs : Raw} (h : bs.Coherent)
include h

theorem contains_iff {k : Text} : bs.contains k = true ↔ k ∈ bs.keys := by
  rw [contains, Option.isSome_iff_exists, List.mem_iff_getElem?]
  exact exists_congr fun i => h k i

theorem nodup : bs.keys.Nodup := by
  rw [List.nodup_iff_getElem?_ne_getElem?]
  intro i j hij hj e
  have hi : bs.keys[i]? = some bs.keys[j] := e.trans (List.getElem?_eq_getElem hj)
  have hplace := ((h _ _).mpr hi).symm.trans ((h _ _).mpr (List.getElem?_eq_getElem hj))
  exact absurd (Option.some.inj hplace) (Nat.ne_of_lt hij)

theorem suffix_free {base : Text} (hb : base ∈ bs.keys) :
    base ++ Text.natural (bs.suffix base) ∉ bs.keys := by
  obtain ⟨n, hn, hf⟩ := bs.exists_free hb
  unfold suffix
  cases hfind : (List.range' bs.size bs.size).find? fun n =>
      !bs.contains (base ++ Text.natural n) with
  | none =>
    have hcontains := List.find?_eq_none.mp hfind n hn
    simp [h.contains_iff, hf] at hcontains
  | some m =>
    have hm := List.find?_some hfind
    simpa [← h.contains_iff] using hm

theorem keyFor_not_mem (key : Text) : bs.keyFor key ∉ bs.keys := by
  unfold keyFor
  dsimp only
  split
  · rename_i hb
    exact h.suffix_free (h.contains_iff.mp hb)
  · rename_i hb
    exact mt h.contains_iff.mpr hb

theorem add (key : Text) (v : Value) : (bs.add key v).Coherent := by
  intro k i
  have hfree := h.keyFor_not_mem key
  rw [place?_add, keys_add, List.getElem?_append, length_keys]
  by_cases hk : k = bs.keyFor key
  · -- the new key stands at no earlier place
    rw [if_pos hk, Option.some.injEq]
    split
    · rename_i hi
      refine ⟨fun e => by omega, fun e => ?_⟩
      exact absurd (List.mem_of_getElem? e) (hk ▸ hfree)
    · rw [List.getElem?_singleton, hk]
      split
      · simp; omega
      · simp; omega
  · -- the note of the new key hides no other
    rw [if_neg hk, h k i]
    split
    · rfl
    · rename_i hi
      rw [List.getElem?_eq_none (length_keys bs ▸ Nat.le_of_not_lt hi), List.getElem?_singleton]
      split
      · simp [Ne.symm hk]
      · rfl

end Coherent

theorem Reachable.coherent {bs : Raw} (h : bs.Reachable) : bs.Coherent := by
  induction h with
  | empty => simp [Coherent, place?, Raw.empty, keys]
  | add _ key v ih => exact ih.add key v

/-! ## The shape of the key -/

/-- The key is the wanted one without the colons around it, or that with a number behind it. -/
theorem keyFor_eq (bs : Raw) (key : Text) :
    ∃ ds : Text, bs.keyFor key = Text.trim (· == ':') key ++ ds ∧ ∀ c ∈ ds, c.isDigit = true := by
  unfold keyFor
  dsimp only
  split
  · exact ⟨_, rfl, fun _ => Text.isDigit_of_mem_natural⟩
  · exact ⟨[], by simp, by simp⟩

theorem isWord_keyFor (bs : Raw) {key : Text} (h : isWord key = true) :
    isWord (bs.keyFor key) = true := by
  obtain ⟨ds, e, hd⟩ := bs.keyFor_eq key
  rw [e, trim_colon_of_isWord h]
  exact isWord_append h fun c hc => isWordChar_of_isDigit (hd c hc)

theorem isName_keyFor (bs : Raw) {key : Text} (h : isName key = true) :
    isName (bs.keyFor key) = true := by
  obtain ⟨ds, e, hd⟩ := bs.keyFor_eq key
  rw [e, trim_colon_of_isWord (isWord_of_isName h)]
  exact isName_append h fun c hc => isWordChar_of_isDigit (hd c hc)

theorem keyFor_bare (bs : Raw) (key : Text) :
    (bs.keyFor key).head? ≠ some ':' ∧ (bs.keyFor key).getLast? ≠ some ':' := by
  obtain ⟨-, hhead, hlast⟩ := bared_trim key
  obtain ⟨ds, e, hd⟩ := bs.keyFor_eq key
  have hdigit : ':' ∉ ds := fun hc => by simpa using hd ':' hc
  rw [e]
  refine ⟨fun h => ?_, fun h => ?_⟩
  · rw [List.head?_append, Option.or_eq_some_iff] at h
    rcases h with h | ⟨-, h⟩
    · exact hhead h
    · exact hdigit (List.mem_of_mem_head? h)
  · rw [List.getLast?_append, Option.or_eq_some_iff] at h
    rcases h with h | ⟨-, h⟩
    · exact hdigit (List.mem_of_mem_getLast? h)
    · exact hlast h

theorem Reachable.bare {bs : Raw} (h : bs.Reachable) :
    ∀ k ∈ bs.keys, k.head? ≠ some ':' ∧ k.getLast? ≠ some ':' := by
  induction h with
  | empty => exact fun k hk => absurd hk List.not_mem_nil
  | @add bs _ key v ih =>
    rw [keys_add]
    intro k hk
    rcases List.mem_append.mp hk with hk | hk
    · exact ih k hk
    · exact List.mem_singleton.mp hk ▸ bs.keyFor_bare key

end Raw

/-! ## Entries and index -/

theorem contains_iff {bs : Bindings} {key : Text} : bs.contains key = true ↔ key ∈ bs.keys :=
  bs.reachable.coherent.contains_iff

theorem nodup_keys (bs : Bindings) : bs.keys.Nodup := bs.reachable.coherent.nodup

theorem keyFor_not_mem (bs : Bindings) (key : Text) : bs.keyFor key ∉ bs.keys :=
  bs.reachable.coherent.keyFor_not_mem key

theorem entries_bind (bs : Bindings) (key : Text) (v : Value) :
    (bs.bind key v).2.entries = bs.entries ++ [⟨bs.keyFor key, v⟩] := rfl

theorem keys_bind (bs : Bindings) (key : Text) (v : Value) :
    (bs.bind key v).2.keys = bs.keys ++ [bs.keyFor key] := bs.keys_add key v

theorem keyFor_of_not_mem {bs : Bindings} {key : Text} (h : Text.trim (· == ':') key ∉ bs.keys) :
    bs.keyFor key = Text.trim (· == ':') key := by
  rw [Raw.keyFor, if_neg (mt contains_iff.mp h)]

theorem keyFor_of_mem {bs : Bindings} {key : Text} (h : Text.trim (· == ':') key ∈ bs.keys) :
    bs.keyFor key =
      Text.trim (· == ':') key ++ Text.natural (bs.suffix (Text.trim (· == ':') key)) := by
  rw [Raw.keyFor, if_pos (contains_iff.mpr h)]

theorem get?_eq_some_iff {bs : Bindings} {key : Text} {v : Value} :
    bs.get? key = some v ↔ ⟨key, v⟩ ∈ bs.entries := by
  rw [Raw.get?, Option.bind_eq_some_iff, List.mem_iff_getElem?]
  refine exists_congr fun i => ?_
  rw [bs.reachable.coherent key i, Raw.keys, List.getElem?_map]
  cases bs.entries[i]? with
  | none => simp
  | some b =>
    obtain ⟨k, w⟩ := b
    simp

theorem mem_keys_iff {bs : Bindings} {key : Text} : key ∈ bs.keys ↔ ∃ v, ⟨key, v⟩ ∈ bs.entries := by
  constructor
  · intro h
    obtain ⟨b, hb, rfl⟩ := List.mem_map.mp h
    exact ⟨b.value, hb⟩
  · rintro ⟨v, h⟩
    exact List.mem_map_of_mem h

theorem get?_eq_none_iff {bs : Bindings} {key : Text} : bs.get? key = none ↔ key ∉ bs.keys := by
  simp [Option.eq_none_iff_forall_ne_some, get?_eq_some_iff, mem_keys_iff]

/-- The keys have one place each, and every way to ask for one answers from it. -/
structure Indexed (bs : Bindings) : Prop where
  distinct : bs.keys.Nodup
  bare : ∀ k ∈ bs.keys, k.head? ≠ some ':' ∧ k.getLast? ≠ some ':'
  place : ∀ k i, bs.place? k = some i ↔ bs.keys[i]? = some k
  contains : ∀ k, bs.contains k = true ↔ k ∈ bs.keys
  get : ∀ k v, bs.get? k = some v ↔ ⟨k, v⟩ ∈ bs.entries

theorem indexed (bs : Bindings) : bs.Indexed where
  distinct := bs.nodup_keys
  bare := bs.reachable.bare
  place := bs.reachable.coherent
  contains _ := contains_iff
  get _ _ := get?_eq_some_iff

/-! ## Value after value -/

/-- Binds the values in turn, and tells their keys. -/
def bindAll (bs : Bindings) : List (Text × Value) → List Text × Bindings
  | [] => ([], bs)
  | (key, v) :: rest =>
    let (key, bs) := bs.bind key v
    let (keys, bs) := bs.bindAll rest
    (key :: keys, bs)

theorem keys_bindAll : ∀ (l : List (Text × Value)) (bs : Bindings),
    (bs.bindAll l).2.keys = bs.keys ++ (bs.bindAll l).1
  | [], _ => (List.append_nil _).symm
  | (key, v) :: rest, bs => by
    have ih := keys_bindAll rest (bs.bind key v).2
    rw [keys_bind, List.append_assoc] at ih
    exact ih

theorem values_bindAll : ∀ (l : List (Text × Value)) (bs : Bindings),
    (bs.bindAll l).2.entries.map Binding.value = bs.entries.map Binding.value ++ l.map Prod.snd
  | [], _ => (List.append_nil _).symm
  | (key, v) :: rest, bs => by
    have ih := values_bindAll rest (bs.bind key v).2
    rw [entries_bind, List.map_append, List.append_assoc] at ih
    exact ih

theorem entries_bindAll_of_free : ∀ (es : List Binding) (bs : Bindings),
    (∀ b ∈ es, b.key.head? ≠ some ':' ∧ b.key.getLast? ≠ some ':') →
    (bs.keys ++ es.map Binding.key).Nodup →
    (bs.bindAll (es.map fun b => (b.key, b.value))).2.entries = bs.entries ++ es
  | [], _, _, _ => (List.append_nil _).symm
  | b :: es, bs, hbare, hnd => by
    have htrim : Text.trim (· == ':') b.key = b.key :=
      trim_of_bared ⟨⟨0, 0, by simp⟩, hbare b List.mem_cons_self⟩
    have hfree : b.key ∉ bs.keys := fun h =>
      List.disjoint_of_nodup_append hnd h List.mem_cons_self
    have hkey : bs.keyFor b.key = b.key := (keyFor_of_not_mem (htrim.symm ▸ hfree)).trans htrim
    have ih := entries_bindAll_of_free es (bs.bind b.key b.value).2
      (fun b' hb' => hbare b' (List.mem_cons_of_mem _ hb')) (by
        rw [keys_bind, hkey]
        simpa using hnd)
    rw [entries_bind, hkey, List.append_assoc] at ih
    exact ih

/-- Values with distinct bare keys are bound as they are, in any order. -/
theorem exists_entries_iff {es : List Binding} : (∃ bs : Bindings, bs.entries = es) ↔
    (es.map Binding.key).Nodup ∧ ∀ b ∈ es, b.key.head? ≠ some ':' ∧ b.key.getLast? ≠ some ':' := by
  constructor
  · rintro ⟨bs, rfl⟩
    exact ⟨bs.nodup_keys, fun b hb => bs.reachable.bare b.key (List.mem_map_of_mem hb)⟩
  · rintro ⟨hnd, hbare⟩
    exact ⟨_, entries_bindAll_of_free es empty hbare hnd⟩

/-- `bs'` is `bs` with `v` behind the other values, under a key of its own that `key` asked for. -/
structure Adds (bs : Bindings) (key : Text) (v : Value) (own : Text) (bs' : Bindings) : Prop where
  entries : bs'.entries = bs.entries ++ [⟨own, v⟩]
  free : own ∉ bs.keys
  place : ∀ k, bs'.place? k = if k = own then some bs.size else bs.place? k
  contains : ∀ k, bs'.contains k = if k = own then true else bs.contains k
  get : ∀ k, bs'.get? k = if k = own then some v else bs.get? k
  key : ∃ base, Bared key base ∧ (base ∉ bs.keys → own = base) ∧
    (base ∈ bs.keys → ∃ n, own = base ++ Text.natural n)

theorem adds_bind (bs : Bindings) (key : Text) (v : Value) :
    bs.Adds key v (bs.bind key v).1 (bs.bind key v).2 where
  entries := rfl
  free := bs.keyFor_not_mem key
  place := bs.place?_add key v
  contains k := by
    change (bs.add key v).contains k = if k = bs.keyFor key then true else bs.contains k
    rw [Raw.contains, Raw.place?_add]
    split
    · rfl
    · rfl
  get k := by
    change (bs.add key v).get? k = if k = bs.keyFor key then some v else bs.get? k
    rw [Raw.get?, Raw.place?_add]
    split
    · simp [Raw.add, Raw.size]
    · -- a place that is noted lies among the entries that were there
      rw [Raw.get?]
      refine Option.bind_congr fun i hi => ?_
      have hlt := (List.getElem?_eq_some_iff.mp ((bs.reachable.coherent k i).mp hi)).1
      rw [Raw.length_keys, Raw.size] at hlt
      rw [Raw.add, List.getElem?_append_left hlt]
  key := ⟨_, bared_trim key, keyFor_of_not_mem, fun h => ⟨_, keyFor_of_mem h⟩⟩

/-- **Keys and places agree.** Values that are bound one after the other stand in their order under
the keys that came back. These keys are distinct and bare, the index knows the place of each, and one
more value comes behind the others under a free key and leaves all of them as they are. -/
theorem bindAll_indexed (requests : List (Text × Value)) :
    let (keys, bs) := empty.bindAll requests
    bs.keys = keys ∧ bs.entries.map Binding.value = requests.map Prod.snd ∧ bs.Indexed ∧
      ∀ key v, let (own, bs') := bs.bind key v
        bs.Adds key v own bs' :=
  ⟨keys_bindAll requests empty, values_bindAll requests empty, indexed _, adds_bind _⟩

-- A key with a number behind it is taken when it is asked for later.
example : (empty.bindAll [("id".toList, .null), (":id1:".toList, .null), ("id".toList, .null),
      ("id1".toList, .null)]).1 =
    ["id".toList, "id1".toList, "id2".toList, "id13".toList] := by decide

end SqlForge.Bindings
