import SqlForge.Text

/-!
# Laws of texts

How letter case, replacing, trimming and joining act on texts that are put together from
parts. A replacement acts on each part alone as long as no occurrence lies
across the seam; `occurrence_induction` reads a text the way `replace` does.
-/

namespace SqlForge.Text

/-! ## Letter case -/

theorem lower_append (s t : Text) : lower (s ++ t) = lower s ++ lower t := List.map_append

theorem length_lower (s : Text) : (lower s).length = s.length := List.length_map _

theorem length_eq_of_sameLetters {s t : Text} (h : sameLetters s t = true) : s.length = t.length := by
  rw [← length_lower s, beq_iff_eq.mp h, length_lower]

theorem sameLetters_append {s a b : Text} (h : sameLetters s (a ++ b) = true) :
    ∃ l r, s = l ++ r ∧ sameLetters l a = true ∧ sameLetters r b = true := by
  rw [sameLetters, lower_append, beq_iff_eq] at h
  obtain ⟨l, r, hs, hl, hr⟩ := List.map_eq_append_iff.mp h
  exact ⟨l, r, hs, beq_iff_eq.mpr hl, beq_iff_eq.mpr hr⟩

theorem eq_of_toLower_eq {c x : Char} (h : c.toLower = x) (hx : x.isLower = false) : c = x := by
  unfold Char.toLower at h
  split at h
  · rename_i hc
    have hlow := UInt32.le_iff_toNat_le.mp hc.1
    have hhigh := UInt32.le_iff_toNat_le.mp hc.2
    change 65 ≤ c.val.toNat at hlow
    change c.val.toNat ≤ 90 at hhigh
    have hlower : x.isLower = true := by
      subst h
      unfold Char.isLower
      simp only [Bool.and_eq_true, decide_eq_true_eq, ge_iff_le, UInt32.le_iff_toNat_le,
        UInt32.toNat_add]
      change 97 ≤ (c.val.toNat + 32) % 4294967296 ∧ (c.val.toNat + 32) % 4294967296 ≤ 122
      omega
    rw [hx] at hlower
    cases hlower
  · exact h

theorem toLower_of_isDigit {c : Char} (h : c.isDigit = true) :
    c.toLower = c ∧ c.isLower = false := by
  simp only [Char.isDigit, Bool.and_eq_true, decide_eq_true_eq, ge_iff_le,
    UInt32.le_iff_toNat_le] at h
  change 48 ≤ c.val.toNat ∧ c.val.toNat ≤ 57 at h
  have hupper : ¬ (c.val ≥ 'A'.val ∧ c.val ≤ 'Z'.val) := by
    rw [ge_iff_le, UInt32.le_iff_toNat_le, UInt32.le_iff_toNat_le]
    change ¬ (65 ≤ c.val.toNat ∧ c.val.toNat ≤ 90)
    omega
  have hlower : ¬ c.isLower = true := by
    unfold Char.isLower
    simp only [Bool.and_eq_true, decide_eq_true_eq, ge_iff_le, UInt32.le_iff_toNat_le]
    change ¬ (97 ≤ c.val.toNat ∧ c.val.toNat ≤ 122)
    omega
  exact ⟨dif_neg hupper, by simpa using hlower⟩

/-- A text without letters has one spelling. -/
theorem eq_of_sameLetters : ∀ {s t : Text}, sameLetters s t = true →
    (∀ c ∈ t, c.toLower = c ∧ c.isLower = false) → s = t
  | [], [], _, _ => rfl
  | [], _ :: _, h, _ => by cases length_eq_of_sameLetters h
  | _ :: _, [], h, _ => by cases length_eq_of_sameLetters h
  | c :: s, x :: t, h, hall => by
    rw [sameLetters, beq_iff_eq, lower, lower, List.map_cons, List.map_cons, List.cons.injEq] at h
    obtain ⟨hx, hlower⟩ := hall x List.mem_cons_self
    rw [eq_of_toLower_eq (h.1.trans hx) hlower,
      eq_of_sameLetters (beq_iff_eq.mpr h.2) fun y hy => hall y (List.mem_cons_of_mem x hy)]

/-! ## Replacing -/

/-- An occurrence of `w` begins in `a` and ends in `b`. -/
def Straddles (w a b : Text) : Prop :=
  ∃ l r, l ≠ [] ∧ r ≠ [] ∧ w = l ++ r ∧ l <:+ a ∧ r <+: b

theorem replace_nil (w v : Text) : replace w v [] = [] := rfl

theorem replaceAfter_eq_drop (w v : Text) : ∀ (k : Nat) (s : Text),
    replaceAfter w v k s = replace w v (s.drop k)
  | 0, [] => rfl
  | _ + 1, [] => rfl
  | 0, _ :: _ => rfl
  | k + 1, _ :: s => replaceAfter_eq_drop w v k s

theorem replace_hit {w : Text} (hw : w ≠ []) (v s : Text) :
    replace w v (w ++ s) = v ++ replace w v s := by
  cases w with
  | nil => exact absurd rfl hw
  | cons c w =>
    have hp : (c :: w).isPrefixOf (c :: (w ++ s)) = true := by simp
    rw [List.cons_append, replace, replaceAfter, if_pos hp, replaceAfter_eq_drop]
    simp

theorem replace_miss {w s : Text} {c : Char} (v : Text) (h : ¬ w <+: c :: s) :
    replace w v (c :: s) = c :: replace w v s := by
  have hp : ¬ w.isPrefixOf (c :: s) = true := fun e => h (List.isPrefixOf_iff_prefix.mp e)
  rw [replace, replaceAfter, if_neg hp]
  rfl

/-- Either `w` stands at the head of a text and is passed over as a whole, or the head is a
character that belongs to no occurrence. -/
theorem occurrence_induction {w : Text} (hw : w ≠ []) {P : Text → Prop} (nil : P [])
    (hit : ∀ s, P s → P (w ++ s)) (miss : ∀ c s, ¬ w <+: c :: s → P s → P (c :: s)) (s : Text) :
    P s := by
  induction hn : s.length using Nat.strongRecOn generalizing s with
  | _ n ih =>
    cases s with
    | nil => exact nil
    | cons c s =>
      by_cases h : w <+: c :: s
      · obtain ⟨t, ht⟩ := h
        rw [← ht]
        refine hit t (ih t.length ?_ t rfl)
        have hl := congrArg List.length ht
        have hw' := List.length_pos_iff.mpr hw
        simp only [List.length_append] at hl
        omega
      · exact miss c s h (ih s.length (by simp at hn; omega) s rfl)

theorem replace_of_no_occurrence {w s : Text} (v : Text) (h : ¬ w <:+: s) : replace w v s = s := by
  induction s with
  | nil => rfl
  | cons c s ih =>
    rw [replace_miss v fun hp => h hp.isInfix, ih fun hi => h (List.infix_cons hi)]

theorem replace_append {w a b : Text} (hw : w ≠ []) (v : Text) (h : ¬ Straddles w a b) :
    replace w v (a ++ b) = replace w v a ++ replace w v b := by
  induction a using occurrence_induction hw with
  | nil => rfl
  | hit a ih =>
    have h' : ¬ Straddles w a b := fun ⟨l, r, hl, hr, e, hs, hp⟩ =>
      h ⟨l, r, hl, hr, e, hs.trans (List.suffix_append _ _), hp⟩
    rw [List.append_assoc, replace_hit hw, replace_hit hw, ih h', List.append_assoc]
  | miss c a hn ih =>
    have h' : ¬ Straddles w a b := fun ⟨l, r, hl, hr, e, hs, hp⟩ =>
      h ⟨l, r, hl, hr, e, hs.trans (List.suffix_cons _ _), hp⟩
    have hm : ¬ w <+: c :: (a ++ b) := by
      intro hp
      rcases List.prefix_or_prefix_of_prefix hp (List.prefix_append (c :: a) b) with hp' | ⟨r, hr⟩
      · exact hn hp'
      · refine h ⟨c :: a, r, by simp, ?_, hr.symm, List.suffix_refl _, ?_⟩
        · rintro rfl
          exact hn ⟨[], by rw [← hr]; simp⟩
        · rw [← hr] at hp
          exact (List.prefix_append_right_inj (c :: a)).mp hp
    rw [List.cons_append, replace_miss v hm, replace_miss v hn, ih h', List.cons_append]

/-- To take all occurrences of `w` away shortens a text that has one. -/
theorem length_replace_nil {w : Text} (hw : w ≠ []) (s : Text) :
    (replace w [] s).length ≤ s.length ∧ (w <:+: s → (replace w [] s).length < s.length) := by
  have hpos := List.length_pos_iff.mpr hw
  induction s using occurrence_induction hw with
  | nil => exact ⟨Nat.le_refl _, fun h => absurd (List.infix_nil.mp h) hw⟩
  | hit s ih =>
    rw [replace_hit hw, List.nil_append, List.length_append]
    exact ⟨by omega, fun _ => by omega⟩
  | miss c s hn ih =>
    rw [replace_miss _ hn, List.length_cons, List.length_cons]
    refine ⟨by omega, fun h => ?_⟩
    have := ih.2 ((List.infix_cons_iff.mp h).resolve_left hn)
    omega

theorem not_infix_of_replace_nil {w s : Text} (hw : w ≠ []) (h : replace w [] s = s) :
    ¬ w <:+: s := by
  intro hi
  have := (length_replace_nil hw s).2 hi
  rw [h] at this
  omega

/-! ## Trimming -/

theorem trimEnd_cons (p : Char → Bool) (c : Char) (s : Text) :
    trimEnd p (c :: s) = if trimEnd p s = [] ∧ p c = true then [] else c :: trimEnd p s := by
  unfold trimEnd
  rw [List.reverse_cons, List.dropWhile_append]
  by_cases hs : s.reverse.dropWhile p = []
  · by_cases hc : p c = true
    · simp [hs, hc]
    · simp [hs, hc]
  · simp [hs]

theorem mem_of_mem_trimEnd {p : Char → Bool} {c : Char} {s : Text} (h : c ∈ trimEnd p s) :
    c ∈ s := by
  rw [trimEnd, List.mem_reverse] at h
  exact List.mem_reverse.mp ((List.dropWhile_sublist p).mem h)

theorem mem_of_mem_trim {p : Char → Bool} {c : Char} {s : Text} (h : c ∈ trim p s) : c ∈ s :=
  (List.dropWhile_sublist p).mem (mem_of_mem_trimEnd h)

theorem dropWhile_of_none {p : Char → Bool} : ∀ {s : Text}, (∀ c ∈ s, p c = false) →
    s.dropWhile p = s
  | [], _ => rfl
  | c :: s, h => by rw [List.dropWhile_cons_of_neg]; simp [h c]

theorem trim_of_none {p : Char → Bool} {s : Text} (h : ∀ c ∈ s, p c = false) : trim p s = s := by
  have hr : ∀ c ∈ s.reverse, p c = false := fun c hc => h c (List.mem_reverse.mp hc)
  rw [trim, trimStart, dropWhile_of_none h, trimEnd, dropWhile_of_none hr, List.reverse_reverse]

theorem trimStart_append {p : Char → Bool} {l : Text} (hl : ∀ c ∈ l, p c = true) (s : Text) :
    trimStart p (l ++ s) = trimStart p s := List.dropWhile_append_of_pos hl

theorem trimStart_of_head? {p : Char → Bool} {s : Text} (h : ∀ c ∈ s.head?, p c = false) :
    trimStart p s = s := by
  cases s with
  | nil => rfl
  | cons c s => exact List.dropWhile_cons_of_neg (by simpa using h c rfl)

theorem mem_trimStart {p : Char → Bool} {c : Char} {s : Text} (hc : c ∈ s) (h : p c = false) :
    c ∈ trimStart p s := by
  rw [← List.takeWhile_append_dropWhile (p := p) (l := s), List.mem_append] at hc
  refine hc.resolve_left fun ht => ?_
  rw [List.all_eq_true.mp List.all_takeWhile c ht] at h
  cases h

theorem trimStart_append_of_head? {p : Char → Bool} {t : Text} (h : ∀ c ∈ t.head?, p c = false)
    (s : Text) : trimStart p (s ++ t) = trimStart p s ++ t := by
  rw [trimStart, trimStart, List.dropWhile_append]
  split
  · rename_i hs
    rw [List.isEmpty_iff.mp hs]
    exact trimStart_of_head? h
  · rfl

theorem trimEnd_append {p : Char → Bool} {r : Text} (hr : ∀ c ∈ r, p c = true) (s : Text) :
    trimEnd p (s ++ r) = trimEnd p s := by
  rw [trimEnd, List.reverse_append,
    List.dropWhile_append_of_pos fun c hc => hr c (List.mem_reverse.mp hc), trimEnd]

theorem trimEnd_of_getLast? {p : Char → Bool} {s : Text} (h : ∀ c ∈ s.getLast?, p c = false) :
    trimEnd p s = s := by
  rw [← List.head?_reverse] at h
  have ht : s.reverse.dropWhile p = s.reverse := trimStart_of_head? h
  rw [trimEnd, ht, List.reverse_reverse]

/-- What is trimmed away are the characters around a text that neither begins nor ends with one. -/
theorem trim_between {p : Char → Bool} {l m r : Text} (hl : ∀ c ∈ l, p c = true)
    (hr : ∀ c ∈ r, p c = true) (hhead : ∀ c ∈ m.head?, p c = false)
    (hlast : ∀ c ∈ m.getLast?, p c = false) : trim p (l ++ (m ++ r)) = m := by
  rw [trim, trimStart_append hl]
  cases m with
  | nil =>
    have hn := trimStart_append hr []
    rw [List.append_nil] at hn
    rw [List.nil_append, hn]
    rfl
  | cons c m =>
    rw [trimStart_of_head? (s := c :: m ++ r) hhead, trimEnd_append hr, trimEnd_of_getLast? hlast]

theorem trim_of_ends {p : Char → Bool} {s : Text} (hhead : ∀ c ∈ s.head?, p c = false)
    (hlast : ∀ c ∈ s.getLast?, p c = false) : trim p s = s := by
  have h := trim_between (l := []) (r := []) (by simp) (by simp) hhead hlast
  rwa [List.append_nil] at h

theorem exists_trimEnd (p : Char → Bool) (s : Text) :
    ∃ r, s = trimEnd p s ++ r ∧ (∀ c ∈ r, p c = true) ∧ ∀ c ∈ (trimEnd p s).getLast?, p c = false := by
  refine ⟨(s.reverse.takeWhile p).reverse, ?_, ?_, ?_⟩
  · rw [trimEnd, ← List.reverse_append, List.takeWhile_append_dropWhile, List.reverse_reverse]
  · intro c hc
    exact List.all_eq_true.mp List.all_takeWhile c (List.mem_reverse.mp hc)
  · intro c hc
    have hn := List.head?_dropWhile_not p s.reverse
    rw [trimEnd, List.getLast?_reverse] at hc
    rwa [Option.mem_def.mp hc] at hn

theorem exists_trim (p : Char → Bool) (s : Text) :
    ∃ l r, s = l ++ (trim p s ++ r) ∧ (∀ c ∈ l, p c = true) ∧ (∀ c ∈ r, p c = true) ∧
      (∀ c ∈ (trim p s).head?, p c = false) ∧ ∀ c ∈ (trim p s).getLast?, p c = false := by
  obtain ⟨r, hs, hr, hlast⟩ := exists_trimEnd p (trimStart p s)
  refine ⟨s.takeWhile p, r, ?_, ?_, hr, ?_, hlast⟩
  · rw [trim, ← hs]
    exact List.takeWhile_append_dropWhile.symm
  · exact fun c hc => List.all_eq_true.mp List.all_takeWhile c hc
  · intro c hc
    have hn := List.head?_dropWhile_not p s
    have hhead : (s.dropWhile p).head? = some c := by
      rw [trimStart] at hs
      rw [hs, List.head?_append]
      exact congrArg (·.or r.head?) (Option.mem_def.mp hc)
    rwa [hhead] at hn

theorem trim_around {p : Char → Bool} {l r : Text} (hl : ∀ c ∈ l, p c = true)
    (hr : ∀ c ∈ r, p c = true) (s : Text) : trim p (l ++ (s ++ r)) = trim p s := by
  obtain ⟨l', r', hs, hl', hr', hhead, hlast⟩ := exists_trim p s
  generalize trim p s = m at *
  subst hs
  have he : l ++ (l' ++ (m ++ r') ++ r) = (l ++ l') ++ (m ++ (r' ++ r)) := by
    simp only [List.append_assoc]
  rw [he]
  apply trim_between
  · exact fun c hc => (List.mem_append.mp hc).elim (hl c) (hl' c)
  · exact fun c hc => (List.mem_append.mp hc).elim (hr' c) (hr c)
  · exact hhead
  · exact hlast

theorem ends_of_trim {p : Char → Bool} {s : Text} (h : trim p s = s) :
    (∀ c ∈ s.head?, p c = false) ∧ ∀ c ∈ s.getLast?, p c = false := by
  obtain ⟨-, -, -, -, -, hhead, hlast⟩ := exists_trim p s
  rw [h] at hhead hlast
  exact ⟨hhead, hlast⟩

theorem trimStart_of_trim {p : Char → Bool} {s : Text} (h : trim p s = s) : trimStart p s = s :=
  trimStart_of_head? (ends_of_trim h).1

theorem trim_trim (p : Char → Bool) (s : Text) : trim p (trim p s) = trim p s := by
  obtain ⟨-, -, -, -, -, hhead, hlast⟩ := exists_trim p s
  exact trim_of_ends hhead hlast

theorem trim_eq_nil_iff {p : Char → Bool} {s : Text} : trim p s = [] ↔ ∀ c ∈ s, p c = true := by
  constructor
  · intro h c hc
    obtain ⟨l, r, hs, hl, hr, -⟩ := exists_trim p s
    rw [h, List.nil_append] at hs
    rw [hs, List.mem_append] at hc
    exact hc.elim (hl c) (hr c)
  · intro h
    have hn := trim_between (m := []) (r := []) h (by simp) (by simp) (by simp)
    rwa [List.append_nil, List.append_nil] at hn

/-- Trimming reaches through `flatMap` if the characters that are trimmed become such, and the others
become texts that neither begin nor end with one. -/
theorem trim_flatMap {p q : Char → Bool} {g : Char → Text} {s : Text}
    (hp : ∀ c ∈ s, p c = true → ∀ x ∈ g c, q x = true)
    (hn : ∀ c ∈ s, p c = false → g c ≠ [] ∧ (∀ x ∈ (g c).head?, q x = false) ∧
      ∀ x ∈ (g c).getLast?, q x = false) :
    trim q (s.flatMap g) = (trim p s).flatMap g := by
  obtain ⟨l, r, hs, hl, hr, hhead, hlast⟩ := exists_trim p s
  generalize trim p s = m at *
  subst hs
  have hm : ∀ c ∈ m, c ∈ l ++ (m ++ r) := by simp +contextual
  rw [List.flatMap_append, List.flatMap_append]
  apply trim_between
  · intro x hx
    obtain ⟨c, hc, hx⟩ := List.mem_flatMap.mp hx
    exact hp c (by simp [hc]) (hl c hc) x hx
  · intro x hx
    obtain ⟨c, hc, hx⟩ := List.mem_flatMap.mp hx
    exact hp c (by simp [hc]) (hr c hc) x hx
  · cases m with
    | nil => simp
    | cons c m =>
      obtain ⟨hne, hh, -⟩ := hn c (hm c (by simp)) (hhead c rfl)
      obtain ⟨x, t, hg⟩ := List.exists_cons_of_ne_nil hne
      simpa [hg] using hh
  · obtain rfl | ⟨m, c, rfl⟩ := List.eq_nil_or_concat m
    · simp
    · obtain ⟨hne, -, ht⟩ := hn c (hm c (by simp)) (hlast c (by simp))
      obtain h | ⟨t, x, hg⟩ := List.eq_nil_or_concat (g c)
      · exact absurd h hne
      · rw [hg] at ht
        simpa [hg] using ht

/-! ## Cutting -/

theorem cut?_of_not_mem {c : Char} : ∀ {s : Text}, c ∉ s → cut? c s = none
  | [], _ => rfl
  | x :: s, h => by
    have hx : x ≠ c := fun e => h (by simp [e])
    rw [cut?, if_neg hx, cut?_of_not_mem fun hs => h (List.mem_cons_of_mem _ hs)]
    rfl

theorem eq_of_cut? {c : Char} : ∀ {s a b : Text}, cut? c s = some (a, b) → s = a ++ c :: b
  | [], _, _, h => by cases h
  | x :: s, a, b, h => by
    rw [cut?] at h
    split at h
    · rename_i hx
      cases h
      rw [hx]; rfl
    · obtain ⟨⟨a', b'⟩, h', e⟩ := Option.map_eq_some_iff.mp h
      cases e
      rw [eq_of_cut? h', List.cons_append]

theorem not_mem_of_cut? {c : Char} : ∀ {s a b : Text}, cut? c s = some (a, b) → c ∉ a
  | [], _, _, h => by cases h
  | x :: s, a, b, h => by
    rw [cut?] at h
    split at h
    · cases h
      exact List.not_mem_nil
    · rename_i hx
      obtain ⟨⟨a', b'⟩, h', e⟩ := Option.map_eq_some_iff.mp h
      cases e
      rw [List.mem_cons, not_or]
      exact ⟨Ne.symm hx, not_mem_of_cut? h'⟩

theorem cut?_append {c : Char} : ∀ {a : Text}, c ∉ a → ∀ b : Text, cut? c (a ++ c :: b) = some (a, b)
  | [], _, _ => by rw [List.nil_append, cut?, if_pos rfl]
  | x :: a, h, b => by
    have hx : x ≠ c := fun e => h (by simp [e])
    rw [List.cons_append, cut?, if_neg hx, cut?_append fun ha => h (List.mem_cons_of_mem _ ha)]
    rfl

theorem not_mem_of_cut?_eq_none {c : Char} {s : Text} (h : cut? c s = none) : c ∉ s := by
  intro hc
  obtain ⟨a, b, rfl, ha⟩ := List.eq_append_cons_of_mem hc
  rw [cut?_append ha] at h
  cases h

theorem mem_of_cutWord? {w : Text} {c : Char} : ∀ {s a b : Text}, cutWord? w s = some (a, b) →
    c ∈ a ∨ c ∈ b → c ∈ s
  | [], _, _, h, _ => by cases h
  | x :: s, a, b, h, hc => by
    rw [cutWord?] at h
    split at h
    · cases h
      exact List.mem_of_mem_drop (hc.resolve_left List.not_mem_nil)
    · obtain ⟨⟨a', b'⟩, h', e⟩ := Option.map_eq_some_iff.mp h
      cases e
      rcases hc with hc | hc
      · rcases List.mem_cons.mp hc with rfl | hc
        · exact List.mem_cons_self
        · exact List.mem_cons_of_mem x (mem_of_cutWord? h' (.inl hc))
      · exact List.mem_cons_of_mem x (mem_of_cutWord? h' (.inr hc))

/-! ## Joining -/

theorem join_cons (sep t : Text) (ts : List Text) :
    join sep (t :: ts) = t ++ ts.flatMap (sep ++ ·) := by
  unfold join
  induction ts generalizing t with
  | nil => rw [List.intercalate_singleton, List.flatMap_nil, List.append_nil]
  | cons u ts ih => rw [List.intercalate_cons_cons, ih, List.flatMap_cons, List.append_assoc,
      List.append_assoc]

theorem join_append {sep : Text} {ts us : List Text} (ht : ts ≠ []) (hu : us ≠ []) :
    join sep (ts ++ us) = join sep ts ++ (sep ++ join sep us) := by
  obtain ⟨t, ts, rfl⟩ := List.exists_cons_of_ne_nil ht
  obtain ⟨u, us, rfl⟩ := List.exists_cons_of_ne_nil hu
  rw [List.cons_append, join_cons, join_cons, join_cons, List.flatMap_append, List.flatMap_cons]
  simp only [List.append_assoc]

theorem mem_join {sep : Text} {c : Char} : ∀ {ts : List Text}, c ∈ join sep ts →
    c ∈ sep ∨ ∃ t ∈ ts, c ∈ t
  | [], h => by cases h
  | [t], h => by
    rw [join, List.intercalate_singleton] at h
    exact .inr ⟨t, by simp, h⟩
  | t :: u :: ts, h => by
    rw [join, List.intercalate_cons_cons, List.mem_append, List.mem_append] at h
    rcases h with (h | h) | h
    · exact .inr ⟨t, by simp, h⟩
    · exact .inl h
    · have ih : c ∈ sep ∨ ∃ x ∈ u :: ts, c ∈ x := mem_join h
      rcases ih with h | ⟨x, hx, h⟩
      · exact .inl h
      · exact .inr ⟨x, List.mem_cons_of_mem _ hx, h⟩

theorem not_mem_join {sep : Text} {c : Char} {ts : List Text} (hsep : c ∉ sep)
    (h : ∀ t ∈ ts, c ∉ t) : c ∉ join sep ts := by
  intro hj
  rcases mem_join hj with hs | ⟨t, ht, hc⟩
  · exact hsep hs
  · exact h t ht hc

theorem mem_join_of_mem {sep t : Text} {c : Char} {ts : List Text} (ht : t ∈ ts) (hc : c ∈ t) :
    c ∈ join sep ts := by
  cases ts with
  | nil => cases ht
  | cons u ts =>
    rw [join_cons, List.mem_append, List.mem_flatMap]
    rcases List.mem_cons.mp ht with rfl | ht
    · exact .inl hc
    · exact .inr ⟨t, ht, List.mem_append_right _ hc⟩

/-! ## Splitting -/

theorem mem_of_mem_splitOn {s t : Text} {c x : Char} (ht : t ∈ s.splitOn x) (hc : c ∈ t) :
    c ∈ s := by
  have h : c ∈ join [x] (s.splitOn x) := mem_join_of_mem ht hc
  rwa [join, List.intercalate_splitOn] at h

theorem not_mem_of_mem_splitOn {x : Char} {s t : Text} (ht : t ∈ s.splitOn x) : x ∉ t := by
  induction hn : s.length using Nat.strongRecOn generalizing s with
  | _ n ih =>
    cases hcut : cut? x s with
    | none =>
      rw [List.splitOn_eq_singleton (not_mem_of_cut?_eq_none hcut), List.mem_singleton] at ht
      rw [ht]
      exact not_mem_of_cut?_eq_none hcut
    | some ab =>
      obtain ⟨a, b⟩ := ab
      have ha := not_mem_of_cut? hcut
      obtain rfl := eq_of_cut? hcut
      rw [List.splitOn_append_cons_self_of_not_mem ha, List.mem_cons] at ht
      rcases ht with rfl | ht
      · exact ha
      · refine ih b.length ?_ ht rfl
        rw [← hn, List.length_append, List.length_cons]
        omega

/-! ## Numbers -/

theorem isDigit_of_mem_natural {n : Nat} {c : Char} (h : c ∈ natural n) : c.isDigit = true :=
  Nat.isDigit_of_mem_toDigits (by decide) (by decide) h

theorem natural_ne_nil (n : Nat) : natural n ≠ [] := Nat.toDigits_ne_nil

theorem natural_injective {m n : Nat} (h : natural m = natural n) : m = n := by
  have hd := congrArg (fun ds => Nat.ofDigitChars 10 ds 0) h
  simpa only [natural, Nat.ofDigitChars_ten_toDigits] using hd

end SqlForge.Text
