import SqlForge.Dialect.Place
import SqlForge.Proofs.Texts

/-!
# Calls that pass unchanged

A text that is taken for a call is taken apart and put together again, unless it has no
lower-case letter and ends in empty brackets. This shortcut looks at the letters and at the end
alone, so besides calls without arguments it lets through whatever stands between the bracket
behind a name and empty brackets further on.
-/

namespace SqlForge

namespace Text

/-! ## Upper case -/

theorem capital_ne_nil (c : Char) : capital c ≠ [] := by
  have hseqs : ∀ p ∈ capitalSequences, p.2 ≠ [] := by decide +kernel
  unfold capital
  split
  · simp
  · split
    · rename_i codes hcodes
      obtain ⟨l, l', e, -⟩ := List.lookup_eq_some_iff.mp hcodes
      simpa using hseqs (c.toNat, codes) (by simp [e])
    · simp

theorem length_le_length_upper (s : Text) : s.length ≤ (upper s).length := by
  induction s with
  | nil => simp
  | cons c s ih =>
    have hc := List.length_pos_iff.mpr (capital_ne_nil c)
    simp only [upper, List.flatMap_cons, List.length_append, List.length_cons] at ih ⊢
    omega

theorem upper_eq_self_iff {s : Text} : upper s = s ↔ ∀ c ∈ s, capital c = [c] := by
  induction s with
  | nil => simp [upper]
  | cons c s ih =>
    rw [List.forall_mem_cons, ← ih]
    constructor
    · intro h
      obtain ⟨x, t, hx⟩ := List.exists_cons_of_ne_nil (capital_ne_nil c)
      rw [upper, List.flatMap_cons, hx, List.cons_append, List.cons.injEq] at h
      obtain ⟨rfl, h⟩ := h
      -- no text becomes shorter, so nothing is left for a second character
      have hl := congrArg List.length h
      have hle := length_le_length_upper s
      rw [upper] at hle
      rw [List.length_append] at hl
      have ht : t = [] := List.length_eq_zero_iff.mp (by omega)
      rw [ht, List.nil_append] at h
      exact ⟨by rw [hx, ht], h⟩
    · rintro ⟨hc, hs⟩
      rw [upper] at hs ⊢
      rw [List.flatMap_cons, hc, hs]
      rfl

theorem capital_of_lt {c : Char} (h : c.toNat < 97) : capital c = [c] := by
  have hruns : ∀ r ∈ capitalRuns, 97 ≤ r.1 := by decide +kernel
  have hseqs : ∀ p ∈ capitalSequences, 97 ≤ p.1 := by decide +kernel
  have hshift : capitalShift? c.toNat = none := by
    rw [capitalShift?, Option.map_eq_none_iff, List.find?_eq_none]
    intro r hr
    have := hruns r hr
    simp
    omega
  have hlookup : capitalSequences.lookup c.toNat = none := by
    rw [List.lookup_eq_none_iff]
    intro p hp
    have := hseqs p hp
    simp
    omega
  rw [capital, hshift]
  simp [hlookup]

/-! ## The last of several marks -/

theorem isSome_beforeLast? {c : Char} {s : Text} : (beforeLast? c s).isSome = true ↔ c ∈ s := by
  induction s with
  | nil => simp [beforeLast?]
  | cons x s ih =>
    rw [beforeLast?, List.mem_cons, ← ih]
    cases hb : beforeLast? c s with
    | some a => simp
    | none =>
      by_cases hx : x = c
      · simp [hx]
      · simp [hx, Ne.symm hx]

theorem eq_of_beforeLast? {c : Char} : ∀ {s a : Text}, beforeLast? c s = some a →
    ∃ b, s = a ++ c :: b ∧ c ∉ b
  | [], a, h => by cases h
  | x :: s, a, h => by
    rw [beforeLast?] at h
    cases hb : beforeLast? c s with
    | some a' =>
      rw [hb] at h
      cases h
      obtain ⟨b, rfl, hc⟩ := eq_of_beforeLast? hb
      exact ⟨b, rfl, hc⟩
    | none =>
      rw [hb] at h
      have hs : c ∉ s := fun hm => by
        have := isSome_beforeLast?.mpr hm
        rw [hb] at this
        cases this
      by_cases hx : x = c
      · rw [if_pos hx] at h
        cases h
        exact ⟨s, by simp [hx], hs⟩
      · simp [hx] at h

theorem beforeLast?_append {c : Char} {b : Text} (hb : c ∉ b) : ∀ a : Text,
    beforeLast? c (a ++ c :: b) = some a
  | [] => by
    have hn : beforeLast? c b = none :=
      Option.not_isSome_iff_eq_none.mp fun h => hb (isSome_beforeLast?.mp h)
    rw [List.nil_append, beforeLast?, hn]
    exact if_pos rfl
  | x :: a => by
    rw [List.cons_append, beforeLast?, beforeLast?_append hb a]

end Text

/-! ## What is taken for a call -/

namespace Call

theorem read?_eq_some_iff {s : Text} {c : Call} : read? s = some c ↔
    c.name ≠ [] ∧ (∀ x ∈ c.name, isNameChar x = true) ∧ ∃ rest, s = c.name ++ '(' :: rest ∧
      Text.beforeLast? ')' (rest.takeWhile (· != '\n')) = some c.arguments := by
  obtain ⟨name, arguments⟩ := c
  constructor
  · intro h
    unfold read? at h
    split at h
    · rename_i x name' rest hname hrest
      obtain ⟨a, ha, e⟩ := Option.map_eq_some_iff.mp h
      cases e
      refine ⟨List.cons_ne_nil x name', ?_, rest, ?_, ha⟩
      · intro y hy
        rw [← hname] at hy
        exact List.all_eq_true.mp List.all_takeWhile y hy
      · change s = x :: name' ++ '(' :: rest
        rw [← hname, ← hrest]
        exact List.takeWhile_append_dropWhile.symm
    · cases h
  · rintro ⟨hne, hname, rest, rfl, ha⟩
    obtain ⟨x, name, rfl⟩ := List.exists_cons_of_ne_nil hne
    have htake : (x :: name ++ '(' :: rest).takeWhile isNameChar = x :: name := by
      rw [List.takeWhile_append_of_pos hname, List.takeWhile_cons_of_neg (by decide), List.append_nil]
    have hdrop : (x :: name ++ '(' :: rest).dropWhile isNameChar = '(' :: rest := by
      rw [List.dropWhile_append_of_pos hname, List.dropWhile_cons_of_neg (by decide)]
    rw [read?, htake, hdrop]
    simp [ha]

theorem isCall_iff {s : Text} : isCall s = true ↔ ∃ name rest, name ≠ [] ∧
    (∀ c ∈ name, isNameChar c = true) ∧ s = name ++ '(' :: rest ∧
      ')' ∈ rest.takeWhile (· != '\n') := by
  rw [isCall, Option.isSome_iff_exists]
  constructor
  · rintro ⟨c, h⟩
    obtain ⟨hne, hname, rest, hs, ha⟩ := read?_eq_some_iff.mp h
    exact ⟨c.name, rest, hne, hname, hs, Text.isSome_beforeLast?.mp (by rw [ha]; rfl)⟩
  · rintro ⟨name, rest, hne, hname, hs, hc⟩
    obtain ⟨a, ha⟩ := Option.isSome_iff_exists.mp (Text.isSome_beforeLast?.mpr hc)
    exact ⟨⟨name, a⟩, read?_eq_some_iff.mpr ⟨hne, hname, rest, hs, ha⟩⟩

theorem toNat_lt_of_isNameChar {c : Char} (h : isNameChar c = true) : c.toNat < 97 := by
  unfold isNameChar Char.isUpper Char.isDigit at h
  simp only [Bool.or_eq_true, Bool.and_eq_true, decide_eq_true_eq, beq_iff_eq, ge_iff_le,
    UInt32.le_iff_toNat_le] at h
  change ((65 ≤ c.toNat ∧ c.toNat ≤ 90) ∨ (48 ≤ c.toNat ∧ c.toNat ≤ 57)) ∨ c = '_' at h
  rcases h with (h | h) | rfl
  · omega
  · omega
  · decide

theorem paren_not_mem_name {name : Text} (h : ∀ c ∈ name, isNameChar c = true) : '(' ∉ name := by
  intro hp
  exact absurd (h '(' hp) (by decide)

/-! ## What the shortcut lets through -/

/-- `s` is a name in capitals with empty brackets behind it. -/
def Bare (s : Text) : Prop :=
  ∃ name, name ≠ [] ∧ (∀ c ∈ name, isNameChar c = true) ∧ s = name ++ "()".toList

/-- `s` begins like a call and ends like one, and `middle` is anything without a lower-case letter. -/
def Stretched (s : Text) : Prop :=
  ∃ name middle, name ≠ [] ∧ (∀ c ∈ name, isNameChar c = true) ∧
    s = name ++ '(' :: (middle ++ "()".toList) ∧ (∀ c ∈ middle, Text.capital c = [c]) ∧
    ')' ∈ (middle ++ "()".toList).takeWhile (· != '\n')

theorem isBareCall_iff {s : Text} : isBareCall s = true ↔
    (∀ c ∈ s, Text.capital c = [c]) ∧ "()".toList <:+ s := by
  rw [isBareCall, Bool.and_eq_true, beq_iff_eq, List.isSuffixOf_iff_suffix, Text.upper_eq_self_iff]

theorem capital_of_isNameChar {c : Char} (h : isNameChar c = true) : Text.capital c = [c] :=
  Text.capital_of_lt (toNat_lt_of_isNameChar h)

theorem capital_paren {c : Char} (h : c ∈ ['(', ')']) : Text.capital c = [c] := by
  apply Text.capital_of_lt
  rcases List.mem_cons.mp h with rfl | h
  · decide
  · rw [List.mem_singleton.mp h]
    decide

theorem Bare.passes {s : Text} (h : Bare s) : isCall s = true ∧ isBareCall s = true := by
  obtain ⟨name, hne, hname, rfl⟩ := h
  refine ⟨isCall_iff.mpr ⟨name, [')'], hne, hname, rfl, by decide⟩, isBareCall_iff.mpr ⟨?_, ?_⟩⟩
  · intro c hc
    rcases List.mem_append.mp hc with hc | hc
    · exact capital_of_isNameChar (hname c hc)
    · exact capital_paren hc
  · exact List.suffix_append _ _

theorem Stretched.passes {s : Text} (h : Stretched s) : isCall s = true ∧ isBareCall s = true := by
  obtain ⟨name, middle, hne, hname, rfl, hmiddle, hclose⟩ := h
  refine ⟨isCall_iff.mpr ⟨name, _, hne, hname, rfl, hclose⟩, isBareCall_iff.mpr ⟨?_, ?_⟩⟩
  · intro c hc
    simp only [List.mem_append, List.mem_cons] at hc
    rcases hc with hc | rfl | hc | hc
    · exact capital_of_isNameChar (hname c hc)
    · exact capital_paren (by decide)
    · exact hmiddle c hc
    · exact capital_paren hc
  · exact ⟨name ++ '(' :: middle, by simp⟩

/-- The empty brackets at the end are those behind the name, or others behind these. -/
theorem bare_or_stretched {s : Text} (hcall : isCall s = true) (hbare : isBareCall s = true) :
    Bare s ∨ Stretched s := by
  obtain ⟨name, rest, hne, hname, rfl, hclose⟩ := isCall_iff.mp hcall
  obtain ⟨hcapital, front, hend⟩ := isBareCall_iff.mp hbare
  rcases List.append_eq_append_iff.mp hend with ⟨a, rfl, h⟩ | ⟨a, rfl, h⟩
  · cases a with
    | nil =>
      rw [List.nil_append] at h
      exact .inl ⟨_, hne, hname, by rw [h]⟩
    | cons x a =>
      have hx : x = '(' := (List.cons.inj h).1.symm
      exact absurd (by simp [hx]) (paren_not_mem_name hname)
  · cases a with
    | nil =>
      rw [List.nil_append] at h
      exact .inl ⟨name, hne, hname, by rw [h]⟩
    | cons x a =>
      obtain ⟨-, rfl⟩ := List.cons.inj h
      refine .inr ⟨name, a, hne, hname, rfl, fun c hc => hcapital c ?_, hclose⟩
      simp [hc]

theorem Bare.count_paren {s : Text} (h : Bare s) : s.count '(' = 1 := by
  obtain ⟨name, -, hname, rfl⟩ := h
  rw [List.count_append, List.count_eq_zero.mpr (paren_not_mem_name hname)]
  decide

theorem Stretched.count_paren {s : Text} (h : Stretched s) : 2 ≤ s.count '(' := by
  obtain ⟨name, middle, -, -, rfl, -⟩ := h
  simp only [List.count_append, List.count_cons_self]
  have : List.count '(' "()".toList = 1 := by decide
  omega

end Call

namespace Dialect

theorem direct?_of_isBareCall (d : Dialect) {s : Text} (hcall : isCall s = true)
    (hbare : isBareCall s = true) : d.direct? (.text s) = some s := by
  have hnull : (Value.text s).isNull = false := by
    rw [Value.isNull, beq_eq_false_iff_ne]
    rintro rfl
    exact absurd hcall (by decide)
  have hempty : (Value.text s).isEmptyText = false := by
    cases s with
    | nil => exact absurd hcall (by decide)
    | cons c s => rfl
  simp [direct?, hnull, hempty, hcall, call, hbare]

/-- **The shortcut looks at the ends only.** A text that is taken for a call passes as it is if it is a
name with empty brackets, but also if anything without a lower-case letter stands between the
bracket behind its name and empty brackets at its end. Only the number of its opening brackets
tells whether it is a call without arguments and nothing else. -/
theorem bareCall_passes (d : Dialect) (s : Text) :
    (isCall s = true ∧ isBareCall s = true ↔ Call.Bare s ∨ Call.Stretched s) ∧
    (isCall s = true → isBareCall s = true →
      d.direct? (.text s) = some s ∧ (Call.Bare s ↔ s.count '(' = 1)) := by
  refine ⟨⟨fun ⟨hcall, hbare⟩ => Call.bare_or_stretched hcall hbare, ?_⟩, fun hcall hbare => ⟨?_, ?_⟩⟩
  · rintro (h | h)
    · exact h.passes
    · exact h.passes
  · exact d.direct?_of_isBareCall hcall hbare
  · refine ⟨Call.Bare.count_paren, fun hcount => ?_⟩
    rcases Call.bare_or_stretched hcall hbare with h | h
    · exact h
    · have := h.count_paren
      omega

/-- Another statement between the name and the end. -/
theorem not_bare_of_passing :
    let s := "NOW(); DROP TABLE USERS; --()".toList
    isCall s = true ∧ isBareCall s = true ∧ (∀ d : Dialect, d.call s = s) ∧ ¬ Call.Bare s := by
  intro s
  have hall : s.all (·.toNat < 97) = true := by decide
  have hcapitals : ∀ c ∈ s, c.toNat < 97 := fun c hc => of_decide_eq_true (List.all_eq_true.mp hall c hc)
  have hbare : isBareCall s = true :=
    Call.isBareCall_iff.mpr ⟨fun c hc => Text.capital_of_lt (hcapitals c hc), by decide⟩
  refine ⟨by decide, hbare, fun d => by rw [call, if_pos hbare], ?_⟩
  intro h
  exact absurd h.count_paren (by decide)

end Dialect

end SqlForge
