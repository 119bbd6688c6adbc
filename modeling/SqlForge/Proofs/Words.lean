import SqlForge.Dialect
import SqlForge.Binding
import SqlForge.Proofs.Texts

/-!
# Words and placeholders

The characters of words are neither blanks nor marks, so quoting leaves a word
as it is. A placeholder holds two colons only if its key holds none, which is
what keeps an occurrence of it inside one part of a text.
-/

namespace SqlForge

/-! ## Word characters -/

theorem ne_of_isWordChar {c x : Char} (hc : isWordChar c = true) (hx : isWordChar x = false) :
    c ≠ x := fun e => by rw [e, hx] at hc; cases hc

theorem isBlank_of_isWordChar {c : Char} (hc : isWordChar c = true) : Text.isBlank c = false := by
  unfold isWordChar Char.isAlphanum Char.isAlpha Char.isUpper Char.isLower Char.isDigit at hc
  simp only [Bool.or_eq_true, Bool.and_eq_true, decide_eq_true_eq, beq_iff_eq, ge_iff_le,
    UInt32.le_iff_toNat_le] at hc
  change ((((65 ≤ c.toNat ∧ c.toNat ≤ 90) ∨ (97 ≤ c.toNat ∧ c.toNat ≤ 122)) ∨
    (48 ≤ c.toNat ∧ c.toNat ≤ 57)) ∨ c = '_') at hc
  have hn : c.toNat ≠ 0x20 ∧ 0x0D < c.toNat ∧ c.toNat < 0x85 := by
    rcases hc with ((hc | hc) | hc) | rfl
    · omega
    · omega
    · omega
    · decide
  rw [Text.isBlank, List.any_eq_false]
  intro r hr
  simp only [Text.blankRanges, List.mem_cons, List.not_mem_nil, or_false] at hr
  simp only [Bool.and_eq_true, decide_eq_true_eq]
  rcases hr with rfl | rfl | rfl | rfl | rfl | rfl | rfl | rfl | rfl | rfl <;> simp only <;> omega

theorem isPadding_of_isWordChar {c : Char} (hc : isWordChar c = true) : Text.isPadding c = false := by
  cases hp : Text.isPadding c with
  | false => rfl
  | true =>
    simp [Text.isPadding] at hp
    rcases hp with rfl | rfl | rfl | rfl | rfl | rfl <;> cases hc

theorem isWordChar_of_isDigit {c : Char} (h : c.isDigit = true) : isWordChar c = true := by
  simp [isWordChar, Char.isAlphanum, h]

theorem isWordChar_of_isLower {c : Char} (h : c.isLower = true) : isWordChar c = true := by
  unfold isWordChar Char.isAlphanum Char.isAlpha
  simp [h]

/-- Only letters change their case. -/
theorem isWordChar_toLower (c : Char) : isWordChar c.toLower = isWordChar c := by
  cases hl : c.toLower.isLower with
  | false => rw [← Text.eq_of_toLower_eq rfl hl]
  | true =>
    have hword : isWordChar c = true := by
      unfold Char.toLower at hl
      split at hl
      · rename_i hc
        have hupper : c.isUpper = true := decide_eq_true hc
        unfold isWordChar Char.isAlphanum Char.isAlpha
        simp [hupper]
      · exact isWordChar_of_isLower hl
    rw [hword, isWordChar_of_isLower hl]

theorem isBlank_toLower (c : Char) : Text.isBlank c.toLower = Text.isBlank c := by
  cases hl : c.toLower.isLower with
  | false => rw [← Text.eq_of_toLower_eq rfl hl]
  | true =>
    have hlower := isWordChar_of_isLower hl
    rw [isBlank_of_isWordChar hlower, isBlank_of_isWordChar (isWordChar_toLower c ▸ hlower)]

theorem isBlank_lower {s : Text} {b : Bool} :
    (∀ c ∈ Text.lower s, Text.isBlank c = b) ↔ ∀ c ∈ s, Text.isBlank c = b := by
  simp [Text.lower, isBlank_toLower]

theorem isBlank_getLast?_lower {s : Text} {b : Bool} :
    (∀ c ∈ (Text.lower s).getLast?, Text.isBlank c = b) ↔ ∀ c ∈ s.getLast?, Text.isBlank c = b := by
  rw [Text.lower, List.getLast?_map]
  simp [isBlank_toLower]

theorem ne_nil_of_isWord {s : Text} (h : isWord s = true) : s ≠ [] := by
  rintro rfl; cases h

theorem isWordChar_of_mem {s : Text} (h : isWord s = true) {c : Char} (hc : c ∈ s) :
    isWordChar c = true := by
  unfold isWord at h
  exact List.all_eq_true.mp (Bool.and_eq_true_iff.mp h).2 c hc

theorem not_mem_of_isWord {s : Text} (h : isWord s = true) {x : Char} (hx : isWordChar x = false) :
    x ∉ s := fun hs => ne_of_isWordChar (isWordChar_of_mem h hs) hx rfl

theorem isWord_iff {s : Text} : isWord s = true ↔ s ≠ [] ∧ ∀ c ∈ s, isWordChar c = true := by
  rw [isWord, Bool.and_eq_true, Bool.not_eq_true', List.isEmpty_eq_false_iff, List.all_eq_true]

theorem isWord_append {s t : Text} (hs : isWord s = true) (ht : ∀ c ∈ t, isWordChar c = true) :
    isWord (s ++ t) = true := by
  have hn := ne_nil_of_isWord hs
  unfold isWord at *
  simp only [Bool.and_eq_true, List.all_append, Bool.not_eq_true', List.isEmpty_eq_false_iff] at hs ⊢
  exact ⟨by simp [hn], hs.2, List.all_eq_true.mpr ht⟩

theorem isColumnReference_iff {s : Text} : isColumnReference s = true ↔
    ∃ table column, s = table ++ '.' :: column ∧ isWord table = true ∧ isWord column = true := by
  constructor
  · intro h
    unfold isColumnReference at h
    split at h
    · rename_i table column hcut
      exact ⟨table, column, Text.eq_of_cut? hcut, Bool.and_eq_true_iff.mp h⟩
    · cases h
  · rintro ⟨table, column, rfl, ht, hc⟩
    have hcut : Text.cut? '.' (table ++ '.' :: column) = some (table, column) :=
      Text.cut?_append (not_mem_of_isWord ht rfl) column
    simp only [isColumnReference, hcut, ht, hc, Bool.and_self]

theorem escapeChar_of_isWordChar (f : Flavor) {c : Char} (hc : isWordChar c = true) :
    f.escapeChar c = [c] := by
  cases f with
  | mysql =>
    unfold Flavor.escapeChar
    dsimp only
    split
    case h_8 => rfl
    all_goals cases hc
  | postgres | sqlite =>
    unfold Flavor.escapeChar
    dsimp only
    split
    case h_3 => rfl
    all_goals cases hc

theorem escape_of_isWordChar (f : Flavor) : ∀ {s : Text}, (∀ c ∈ s, isWordChar c = true) →
    f.escape s = s
  | [], _ => rfl
  | c :: s, h => by
    have ih := escape_of_isWordChar f fun x hx => h x (List.mem_cons_of_mem c hx)
    rw [Flavor.escape] at ih
    rw [Flavor.escape, List.flatMap_cons, ih, escapeChar_of_isWordChar f (h c List.mem_cons_self)]
    rfl

/-! ## Names -/

/-- A word that does not begin with a digit. -/
def isName (s : Text) : Bool := isWord s && !(s.head?.any Char.isDigit)

theorem isWord_of_isName {s : Text} (h : isName s = true) : isWord s = true :=
  (Bool.and_eq_true_iff.mp h).1

theorem colon_not_mem_of_isName {s : Text} (h : isName s = true) : ':' ∉ s :=
  not_mem_of_isWord (isWord_of_isName h) rfl

theorem isName_append {s t : Text} (hs : isName s = true) (ht : ∀ c ∈ t, isWordChar c = true) :
    isName (s ++ t) = true := by
  have hw := isWord_of_isName hs
  obtain ⟨c, s, rfl⟩ := List.exists_cons_of_ne_nil (ne_nil_of_isWord hw)
  unfold isName at hs ⊢
  rw [Bool.and_eq_true] at hs ⊢
  exact ⟨isWord_append hw ht, hs.2⟩

theorem not_isOrdinal_of_isName {b : Binding} (h : isName b.key = true) : b.isOrdinal = false := by
  obtain ⟨c, s, hk⟩ := List.exists_cons_of_ne_nil (ne_nil_of_isWord (isWord_of_isName h))
  unfold isName at h
  rw [hk, Bool.and_eq_true] at h
  have hc : c.isDigit = false := by simpa using h.2
  simp [Binding.isOrdinal, hk, hc]

/-! ## Identifiers -/

theorem strip_of_isWord {s : Text} (h : isWord s = true) : Text.strip s = s :=
  Text.trim_of_none fun _ hc => isBlank_of_isWordChar (isWordChar_of_mem h hc)

namespace Flavor

/-- A name behind its point. -/
def member (f : Flavor) (name : Text) : Text := if name = ['*'] then ['*'] else f.enclose name

/-- A name without a point. -/
def single (f : Flavor) (bare : Bool) (name : Text) : Text := if bare then name else f.enclose name

variable (f : Flavor) (bare : Bool)

theorem member_star : f.member ['*'] = ['*'] := if_pos rfl

theorem member_of_ne {name : Text} (h : name ≠ ['*']) : f.member name = f.enclose name := if_neg h

theorem identifier_of_no_point {name : Text} (h : '.' ∉ Text.strip name) :
    f.identifier bare name = f.single bare (Text.strip name) := by
  rw [identifier, Text.cut?_of_not_mem h]
  rfl

theorem identifier_of_point {name qualifier member : Text}
    (h : Text.strip name = qualifier ++ '.' :: member) (hq : '.' ∉ qualifier) :
    f.identifier bare name = f.enclose qualifier ++ '.' :: f.member member := by
  rw [identifier, h, Text.cut?_append hq]
  rfl

theorem identifier_cases (name : Text) :
    ('.' ∉ Text.strip name ∧ f.identifier bare name = f.single bare (Text.strip name)) ∨
      ∃ qualifier member, Text.strip name = qualifier ++ '.' :: member ∧ '.' ∉ qualifier ∧
        f.identifier bare name = f.enclose qualifier ++ '.' :: f.member member := by
  cases hcut : Text.cut? '.' (Text.strip name) with
  | none =>
    have h := Text.not_mem_of_cut?_eq_none hcut
    exact .inl ⟨h, f.identifier_of_no_point bare h⟩
  | some parts =>
    have h := Text.eq_of_cut? hcut
    have hq := Text.not_mem_of_cut? hcut
    exact .inr ⟨parts.1, parts.2, h, hq, f.identifier_of_point bare h hq⟩

end Flavor

theorem quote_of_isWord (f : Flavor) {s : Text} (h : isWord s = true) : f.quote s = f.enclose s := by
  have hpoint : '.' ∉ Text.strip s := by
    rw [strip_of_isWord h]
    exact not_mem_of_isWord h rfl
  rw [Flavor.quote, f.identifier_of_no_point false hpoint, strip_of_isWord h]
  rfl

theorem table?_of_isWord (f : Flavor) {s : Text} (h : isWord s = true) :
    f.table? s = some (f.quote s) := by
  unfold Flavor.table?
  rw [strip_of_isWord h, if_neg (ne_nil_of_isWord h)]

theorem mem_enclose {f : Flavor} {c : Char} {s : Text} (h : c ∈ f.enclose s) : c = f.mark ∨ c ∈ s := by
  simp only [Flavor.enclose, List.mem_append, List.mem_cons, List.not_mem_nil, or_false] at h
  rcases h with (h | h) | h
  · exact .inl h
  · exact .inr h
  · exact .inl h

theorem mem_member {f : Flavor} {c : Char} {s : Text} (h : c ∈ f.member s) :
    c = '*' ∨ c = f.mark ∨ c ∈ s := by
  unfold Flavor.member at h
  split at h
  · exact .inl (List.mem_singleton.mp h)
  · exact .inr (mem_enclose h)

theorem mem_quote {f : Flavor} {c : Char} {s : Text} (h : c ∈ f.quote s) :
    c = f.mark ∨ c = '.' ∨ c = '*' ∨ c ∈ s := by
  rw [Flavor.quote] at h
  rcases f.identifier_cases false s with ⟨-, hs⟩ | ⟨qualifier, member, hs, -, hw⟩
  · rw [hs] at h
    rcases mem_enclose h with h | h
    · exact .inl h
    · exact .inr (.inr (.inr (Text.mem_of_mem_trim h)))
  · have hmem : ∀ x ∈ qualifier ++ '.' :: member, x ∈ s := fun x hx =>
      Text.mem_of_mem_trim (p := Text.isBlank) (by rw [← hs] at hx; exact hx)
    rw [hw, List.mem_append, List.mem_cons] at h
    rcases h with h | h | h
    · rcases mem_enclose h with h | h
      · exact .inl h
      · exact .inr (.inr (.inr (hmem c (List.mem_append_left _ h))))
    · exact .inr (.inl h)
    · rcases mem_member h with h | h | h
      · exact .inr (.inr (.inl h))
      · exact .inl h
      · exact .inr (.inr (.inr (hmem c (by simp [h]))))

theorem colon_not_mem_quote (f : Flavor) {s : Text} (h : ':' ∉ s) : ':' ∉ f.quote s := by
  intro hq
  rcases mem_quote hq with e | e | e | e
  · cases f <;> exact absurd e (by decide)
  · exact absurd e (by decide)
  · exact absurd e (by decide)
  · exact h e

/-! ## Placeholders -/

theorem placeholder_ne_nil (k : Text) : placeholder k ≠ [] := by simp [placeholder]

theorem colon_mem_placeholder (k : Text) : ':' ∈ placeholder k := by simp [placeholder]

theorem not_mem_placeholder {c : Char} {k : Text} (hc : c ≠ ':') (hk : c ∉ k) :
    c ∉ placeholder k := by simp [placeholder, hc, hk]

/-- An occurrence of a placeholder begins with a colon. -/
theorem not_straddles_of_left {k a : Text} (ha : ':' ∉ a) (b : Text) :
    ¬ Text.Straddles (placeholder k) a b := by
  intro h
  obtain ⟨l, r, hl, -, e, hs, -⟩ := h
  obtain ⟨c, l, rfl⟩ := List.exists_cons_of_ne_nil hl
  rw [placeholder, List.cons_append, List.cons_append, List.cons.injEq] at e
  exact ha (hs.subset (by simp [← e.1]))

/-- An occurrence of a placeholder ends with a colon. -/
theorem not_straddles_of_right {k b : Text} (hb : ':' ∉ b) (a : Text) :
    ¬ Text.Straddles (placeholder k) a b := by
  intro h
  obtain ⟨l, r, -, hr, e, -, hp⟩ := h
  obtain h | ⟨r, x, rfl⟩ := List.eq_nil_or_concat r
  · exact hr h
  · have hl := congrArg List.getLast? e
    simp only [placeholder, List.concat_eq_append, ← List.append_assoc, List.getLast?_concat,
      Option.some.injEq] at hl
    exact hb (hp.subset (by rw [List.concat_eq_append, hl]; simp))

/-- No occurrence lies across a character that the placeholder does not have. -/
theorem not_straddles_of_barrier {w : Text} {c : Char} (hc : c ∉ w) (a b : Text) :
    ¬ Text.Straddles w a (c :: b) := by
  intro h
  obtain ⟨l, r, -, hr, rfl, -, hp⟩ := h
  obtain ⟨x, r, rfl⟩ := List.exists_cons_of_ne_nil hr
  rw [List.cons_prefix_cons] at hp
  exact hc (by simp [hp.1])

theorem key_eq_of_occurrence {j k : Text} (hk : ':' ∉ k) (h : placeholder j <:+: placeholder k) :
    j = k := by
  obtain ⟨s, t, e⟩ := h
  -- The placeholder of `k` has two colons, and the occurrence takes both.
  have hc := congrArg (List.count ':') e
  simp only [placeholder, List.count_append, List.count_cons_self, List.count_nil,
    List.count_eq_zero.mpr hk] at hc
  have hs : ':' ∉ s := List.count_eq_zero.mp (by omega)
  have ht : ':' ∉ t := List.count_eq_zero.mp (by omega)
  cases s with
  | cons c s =>
    simp only [placeholder, List.cons_append, List.cons.injEq] at e
    exact absurd (by simp [e.1]) hs
  | nil =>
    obtain rfl | ⟨t, c, rfl⟩ := List.eq_nil_or_concat t
    · simpa [placeholder] using e
    · have hl := congrArg List.getLast? e
      simp only [placeholder, List.concat_eq_append, ← List.append_assoc, List.getLast?_concat,
        Option.some.injEq] at hl
      exact absurd (by simp [hl]) ht

end SqlForge
