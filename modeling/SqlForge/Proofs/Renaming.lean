import SqlForge.Proofs.Bindings

/-!
# The search for a free key

A key that is taken is tried again with a number behind it, and then with the next number, until
the result is free. Nothing in the search gets smaller, but the keys that are tried are all
different and one of the stored keys is the wanted one itself, so as many numbers as there are keys
hold a free one. The number that comes back is the least one, counted from the number of the keys.
-/

namespace SqlForge.Bindings

/-- A search that looks at `key` and ends with the free key `own`. While the key that it looks at is
taken, `base` with the number `next` behind it comes in its place; `tries` numbers are used up. -/
inductive Search (bs : Bindings) (base : Text) : Text → Nat → Text → Nat → Prop
  | free {key : Text} {next : Nat} (h : key ∉ bs.keys) : Search bs base key next key 0
  | taken {key own : Text} {next tries : Nat} (h : key ∈ bs.keys)
      (rest : Search bs base (base ++ Text.natural next) (next + 1) own tries) :
      Search bs base key next own (tries + 1)

variable {bs : Bindings} {base key own own' : Text} {next tries tries' : Nat}

theorem Search.unique (h : bs.Search base key next own tries)
    (h' : bs.Search base key next own' tries') : own' = own ∧ tries' = tries := by
  induction h generalizing tries' with
  | free hfree =>
    cases h' with
    | free => exact ⟨rfl, rfl⟩
    | taken htaken => exact absurd htaken hfree
  | taken htaken _ ih =>
    cases h' with
    | free hfree => exact absurd htaken hfree
    | taken _ rest =>
      obtain ⟨rfl, rfl⟩ := ih rest
      exact ⟨rfl, rfl⟩

theorem search_of_taken : ∀ (k : Nat) {key : Text} {next : Nat}, key ∈ bs.keys →
    (∀ i < k, base ++ Text.natural (next + i) ∈ bs.keys) →
    base ++ Text.natural (next + k) ∉ bs.keys →
    bs.Search base key next (base ++ Text.natural (next + k)) (k + 1)
  | 0, _, _, hkey, _, hfree => .taken hkey (.free hfree)
  | k + 1, key, next, hkey, htaken, hfree => by
    have hnext : base ++ Text.natural next ∈ bs.keys := htaken 0 (Nat.succ_pos k)
    have e : next + (k + 1) = next + 1 + k := by omega
    rw [e] at hfree ⊢
    refine .taken hkey (search_of_taken k hnext (fun i hi => ?_) hfree)
    have hi' := htaken (i + 1) (by omega)
    rwa [show next + (i + 1) = next + 1 + i by omega] at hi'

/-! ## The least number -/

theorem suffix_least (h : base ∈ bs.keys) :
    bs.size ≤ bs.suffix base ∧ bs.suffix base < 2 * bs.size ∧
      base ++ Text.natural (bs.suffix base) ∉ bs.keys ∧
      ∀ k, bs.size ≤ k → k < bs.suffix base → base ++ Text.natural k ∈ bs.keys := by
  obtain ⟨n, hn, hfree⟩ := bs.exists_free h
  cases hfind : (List.range' bs.size bs.size).find? fun n =>
      !bs.contains (base ++ Text.natural n) with
  | none =>
    have hcontains := List.find?_eq_none.mp hfind n hn
    simp [contains_iff, hfree] at hcontains
  | some m =>
    have hm : bs.suffix base = m := by simp [Raw.suffix, hfind]
    obtain ⟨hp, hrange, hbefore⟩ := List.find?_range'_eq_some.mp hfind
    rw [List.mem_range'_1] at hrange
    rw [hm]
    refine ⟨hrange.1, by omega, by simpa [← contains_iff] using hp, fun k hk hlt => ?_⟩
    simpa [contains_iff] using hbefore k hk hlt

/-- **A taken key gets the least free number.** If the key without its colons is stored, the search
for a free one ends, with one outcome only: the key with the least number behind it that makes it
free, counted from the number `n` of the bindings. That takes at most `n` tries, and the number is
at most `2 * n - 1`. -/
theorem bind_least (bs : Bindings) {key base : Text} (v : Value) (hb : Bared key base)
    (htaken : base ∈ bs.keys) :
    ∃ m tries, (bs.bind key v).1 = base ++ Text.natural m ∧
      bs.size ≤ m ∧ m ≤ 2 * bs.size - 1 ∧
      base ++ Text.natural m ∉ bs.keys ∧
      (∀ k, bs.size ≤ k → base ++ Text.natural k ∉ bs.keys → m ≤ k) ∧
      bs.Search base base bs.size (base ++ Text.natural m) tries ∧
      tries = m - bs.size + 1 ∧ tries ≤ bs.size ∧
      ∀ own tries', bs.Search base base bs.size own tries' →
        own = base ++ Text.natural m ∧ tries' = tries := by
  obtain ⟨hle, hlt, hfree, hleast⟩ := suffix_least htaken
  have hkey : (bs.bind key v).1 = base ++ Text.natural (bs.suffix base) := by
    rw [← trim_of_bared hb] at htaken ⊢
    exact keyFor_of_mem htaken
  have hsearch : bs.Search base base bs.size (base ++ Text.natural (bs.suffix base))
      (bs.suffix base - bs.size + 1) := by
    have hend : bs.size + (bs.suffix base - bs.size) = bs.suffix base := by omega
    have hbefore : ∀ i < bs.suffix base - bs.size, base ++ Text.natural (bs.size + i) ∈ bs.keys :=
      fun i hi => hleast (bs.size + i) (by omega) (by omega)
    rw [← hend] at hfree ⊢
    simpa using search_of_taken (bs.suffix base - bs.size) htaken hbefore hfree
  refine ⟨bs.suffix base, _, hkey, hle, by omega, hfree, fun k hk hkfree => ?_, hsearch, rfl, by omega,
    fun own tries' h' => hsearch.unique h'⟩
  by_contra hlt'
  exact hkfree (hleast k hk (by omega))

/-- Both numbers before the last are taken by keys that were asked for as they are. -/
theorem bind_least_crowded :
    let bs := (empty.bindAll [("id".toList, .null), (":id3".toList, .null), ("id4".toList, .null)]).2
    Bared "::id:".toList "id".toList ∧ "id".toList ∈ bs.keys ∧ bs.size = 3 ∧
      (bs.bind "::id:".toList .null).1 = "id5".toList ∧
      bs.Search "id".toList "id".toList 3 "id5".toList 3 := by
  intro bs
  have hb : Bared "::id:".toList "id".toList := ⟨⟨2, 1, rfl⟩, by decide, by decide⟩
  have htaken : "id".toList ∈ bs.keys := by decide
  have hrun : (bs.bind "::id:".toList .null).1 = "id".toList ++ Text.natural 5 := by decide
  obtain ⟨m, tries, hkey, -, -, -, -, hsearch, htries, -⟩ := bs.bind_least .null hb htaken
  obtain rfl : 5 = m := Text.natural_injective (List.append_cancel_left (hrun.symm.trans hkey))
  obtain rfl : tries = 3 := htries
  exact ⟨hb, htaken, rfl, hrun, hsearch⟩

end SqlForge.Bindings
