import SqlForge.Proofs.Decoding
import SqlForge.Proofs.Resolution
import Mathlib.Data.List.TakeWhile

/-!
# Numerals as they are spelled

What is read as a numeral can be written back, so the texts that are read are those of proper
numerals, and each has one reading. An escape leaves a numeral as it is, but not the blanks that
may stand in front of it. They are trimmed after escaping and by a narrower set than the one that
was read over, so what lands in a statement is a numeral only if none of them is outside that set.
-/

namespace SqlForge

/-! ## Spelling -/

def Exponent.text (e : Exponent) : Text := e.mark :: (e.sign.toList ++ e.digits)

structure Exponent.Proper (e : Exponent) : Prop where
  mark : e.mark = 'e' ∨ e.mark = 'E'
  sign : ∀ c ∈ e.sign, c = '+' ∨ c = '-'
  ne_nil : e.digits ≠ []
  digits : ∀ c ∈ e.digits, c.isDigit = true

namespace Numeral

/-- The numeral as it is spelled. -/
def text (n : Numeral) : Text :=
  n.sign.toList ++ (n.whole ++ (n.fraction.elim [] ('.' :: ·) ++ n.exponent.elim [] Exponent.text))

/-- An optional sign, digits with at most one point and at least one digit, an optional exponent. -/
structure Proper (n : Numeral) : Prop where
  sign : ∀ c ∈ n.sign, c = '+' ∨ c = '-'
  whole : ∀ c ∈ n.whole, c.isDigit = true
  fraction : ∀ ds ∈ n.fraction, ∀ c ∈ ds, c.isDigit = true
  digit : n.whole ≠ [] ∨ n.fraction.getD [] ≠ []
  exponent : ∀ e ∈ n.exponent, e.Proper

theorem isWordChar_of_mark {c : Char} (h : c = 'e' ∨ c = 'E') : isWordChar c = true := by
  rcases h with rfl | rfl
  · decide
  · decide

theorem ne_sign_of_isDigit {c : Char} (h : c.isDigit = true) : c ≠ '+' ∧ c ≠ '-' :=
  ⟨ne_of_isWordChar (isWordChar_of_isDigit h) rfl, ne_of_isWordChar (isWordChar_of_isDigit h) rfl⟩

/-! ## Reading a part -/

theorem eq_of_takeSign (s : Text) : s = (takeSign s).1.toList ++ (takeSign s).2 ∧
    ∀ c ∈ (takeSign s).1, c = '+' ∨ c = '-' := by
  unfold takeSign
  split <;> simp

theorem takeSign_append {sign : Option Char} {s : Text} (hsign : ∀ c ∈ sign, c = '+' ∨ c = '-')
    (hs : ∀ c ∈ s.head?, c ≠ '+' ∧ c ≠ '-') : takeSign (sign.toList ++ s) = (sign, s) := by
  cases sign with
  | some c =>
    rcases hsign c rfl with rfl | rfl
    · rfl
    · rfl
  | none =>
    change takeSign s = (none, s)
    cases s with
    | nil => rfl
    | cons c s =>
      obtain ⟨hp, hm⟩ := hs c rfl
      unfold takeSign
      split <;> simp_all

theorem eq_of_takeFraction (s : Text) :
    s = (takeFraction s).1.elim [] ('.' :: ·) ++ (takeFraction s).2 ∧
      ∀ ds ∈ (takeFraction s).1, ∀ c ∈ ds, c.isDigit = true := by
  unfold takeFraction
  split
  · refine ⟨by simp [List.takeWhile_append_dropWhile], ?_⟩
    intro ds hds
    cases hds
    exact List.all_eq_true.mp List.all_takeWhile
  · simp

theorem takeWhile_digits {ds s : Text} (hds : ∀ c ∈ ds, c.isDigit = true)
    (hs : ∀ c ∈ s.head?, c.isDigit = false) :
    (ds ++ s).takeWhile Char.isDigit = ds ∧ (ds ++ s).dropWhile Char.isDigit = s := by
  rw [List.takeWhile_append_of_pos hds, List.dropWhile_append_of_pos hds]
  cases s with
  | nil => simp
  | cons c s =>
    have hc : ¬ c.isDigit = true := by simp [hs c rfl]
    rw [List.takeWhile_cons_of_neg hc, List.dropWhile_cons_of_neg hc, List.append_nil]
    exact ⟨rfl, rfl⟩

theorem takeFraction_append {fraction : Option Text} {s : Text}
    (hf : ∀ ds ∈ fraction, ∀ c ∈ ds, c.isDigit = true)
    (hs : ∀ c ∈ s.head?, c.isDigit = false ∧ c ≠ '.') :
    takeFraction (fraction.elim [] ('.' :: ·) ++ s) = (fraction, s) := by
  cases fraction with
  | some ds =>
    obtain ⟨ht, hd⟩ := takeWhile_digits (hf ds rfl) fun c hc => (hs c hc).1
    simp only [Option.elim_some, List.cons_append, takeFraction, ht, hd]
  | none =>
    change takeFraction s = (none, s)
    cases s with
    | nil => rfl
    | cons c s =>
      have hc := (hs c rfl).2
      unfold takeFraction
      split <;> simp_all

theorem readExponent?_eq_some_iff {s : Text} {e? : Option Exponent} :
    readExponent? s = some e? ↔ s = e?.elim [] Exponent.text ∧ ∀ e ∈ e?, e.Proper := by
  constructor
  · intro h
    cases s with
    | nil =>
      cases h
      exact ⟨rfl, by simp⟩
    | cons mark s =>
      obtain ⟨hs, hsign⟩ := eq_of_takeSign s
      simp only [readExponent?, Option.ite_none_right_eq_some, Option.some.injEq] at h
      obtain ⟨⟨hmark, hne, hdigits⟩, rfl⟩ := h
      refine ⟨congrArg (mark :: ·) hs, ?_⟩
      intro e he
      cases he
      exact ⟨hmark, hsign, hne, List.all_eq_true.mp hdigits⟩
  · rintro ⟨rfl, h⟩
    cases e? with
    | none => rfl
    | some e =>
      obtain ⟨hmark, hsign, hne, hdigits⟩ := h e rfl
      have hhead : ∀ c ∈ e.digits.head?, c ≠ '+' ∧ c ≠ '-' := fun c hc =>
        ne_sign_of_isDigit (hdigits c (List.mem_of_mem_head? hc))
      simp only [Option.elim_some, Exponent.text, readExponent?, takeSign_append hsign hhead]
      rw [if_pos ⟨hmark, hne, List.all_eq_true.mpr hdigits⟩]

/-! ## Reading a numeral -/

theorem Proper.head?_exponent {n : Numeral} (hn : n.Proper) :
    ∀ c ∈ (n.exponent.elim [] Exponent.text).head?, c.isDigit = false ∧ c ≠ '.' := by
  cases he : n.exponent with
  | none => simp
  | some e =>
    intro c hc
    cases hc
    rcases (hn.exponent e he).mark with h | h
    · rw [h]
      decide
    · rw [h]
      decide

theorem Proper.head?_fraction {n : Numeral} (hn : n.Proper) :
    ∀ c ∈ (n.fraction.elim [] ('.' :: ·) ++ n.exponent.elim [] Exponent.text).head?,
      c.isDigit = false := by
  cases n.fraction with
  | none => exact fun c hc => (hn.head?_exponent c hc).1
  | some ds =>
    intro c hc
    cases hc
    decide

theorem Proper.head?_unsigned {n : Numeral} (hn : n.Proper) : ∀ c ∈ (n.whole ++
    (n.fraction.elim [] ('.' :: ·) ++ n.exponent.elim [] Exponent.text)).head?, c ≠ '+' ∧ c ≠ '-' := by
  cases hw : n.whole with
  | cons d ds =>
    intro c hc
    cases hc
    exact ne_sign_of_isDigit (hn.whole d (by simp [hw]))
  | nil =>
    cases hf : n.fraction with
    | some ds =>
      intro c hc
      cases hc
      decide
    | none =>
      -- a numeral without digits
      have := hn.digit
      simp [hw, hf] at this

/-- **One reading.** A text is read as a numeral if it is the spelling of a proper one. -/
theorem read?_eq_some_iff {s : Text} {n : Numeral} : read? s = some n ↔ s = n.text ∧ n.Proper := by
  constructor
  · intro h
    obtain ⟨hs, hsign⟩ := eq_of_takeSign s
    obtain ⟨hf, hfraction⟩ := eq_of_takeFraction ((takeSign s).2.dropWhile Char.isDigit)
    simp only [read?, Option.ite_none_left_eq_some, Option.map_eq_some_iff] at h
    obtain ⟨hdigit, exponent, hexponent, rfl⟩ := h
    obtain ⟨he, hproper⟩ := readExponent?_eq_some_iff.mp hexponent
    refine ⟨?_, hsign, List.all_eq_true.mp List.all_takeWhile, hfraction, ?_, hproper⟩
    · rw [text, ← he, ← hf, List.takeWhile_append_dropWhile]
      exact hs
    · exact not_and_or.mp hdigit
  · rintro ⟨rfl, hn⟩
    obtain ⟨ht, hd⟩ := takeWhile_digits hn.whole hn.head?_fraction
    have hdigit : ¬ (n.whole = [] ∧ n.fraction.getD [] = []) := not_and_or.mpr hn.digit
    have hexponent := readExponent?_eq_some_iff.mpr ⟨rfl, hn.exponent⟩
    simp only [read?, text, takeSign_append hn.sign hn.head?_unsigned, ht, hd,
      takeFraction_append hn.fraction hn.head?_exponent, if_neg hdigit, hexponent, Option.map_some]

theorem Proper.ne_nil {n : Numeral} (hn : n.Proper) : n.text ≠ [] := by
  intro h
  have hr := read?_eq_some_iff.mpr ⟨h.symm, hn⟩
  cases hr

/-! ## Characters -/

/-- A digit, a sign, the point or the mark of an exponent. -/
def isNumeralChar (c : Char) : Bool := c.isDigit || ['+', '-', '.', 'e', 'E'].contains c

theorem isNumeralChar_of_sign {c : Char} (h : c = '+' ∨ c = '-') : isNumeralChar c = true := by
  rcases h with rfl | rfl
  · decide
  · decide

theorem isNumeralChar_of_mark {c : Char} (h : c = 'e' ∨ c = 'E') : isNumeralChar c = true := by
  rcases h with rfl | rfl
  · decide
  · decide

theorem isNumeralChar_of_isDigit {c : Char} (h : c.isDigit = true) : isNumeralChar c = true := by
  simp [isNumeralChar, h]

theorem Proper.isNumeralChar {n : Numeral} (hn : n.Proper) : ∀ c ∈ n.text, isNumeralChar c = true := by
  intro c hc
  simp only [text, List.mem_append, Option.mem_toList] at hc
  rcases hc with hc | hc | hc | hc
  · exact isNumeralChar_of_sign (hn.sign c hc)
  · exact isNumeralChar_of_isDigit (hn.whole c hc)
  · cases hf : n.fraction with
    | none => simp [hf] at hc
    | some ds =>
      simp only [hf, Option.elim_some, List.mem_cons] at hc
      rcases hc with rfl | hc
      · decide
      · exact isNumeralChar_of_isDigit (hn.fraction ds hf c hc)
  · cases he : n.exponent with
    | none => simp [he] at hc
    | some e =>
      obtain ⟨hmark, hsign, -, hdigits⟩ := hn.exponent e he
      simp only [he, Option.elim_some, Exponent.text, List.mem_cons, List.mem_append,
        Option.mem_toList] at hc
      rcases hc with rfl | hc | hc
      · exact isNumeralChar_of_mark hmark
      · exact isNumeralChar_of_sign (hsign c hc)
      · exact isNumeralChar_of_isDigit (hdigits c hc)

theorem isWordChar_of_isNumeralChar {c : Char} (h : isNumeralChar c = true) :
    isWordChar c = true ∨ c = '+' ∨ c = '-' ∨ c = '.' := by
  simp only [isNumeralChar, Bool.or_eq_true, List.contains_iff_mem, List.mem_cons, List.not_mem_nil,
    or_false] at h
  rcases h with h | h | h | h | rfl | rfl
  · exact .inl (isWordChar_of_isDigit h)
  · exact .inr (.inl h)
  · exact .inr (.inr (.inl h))
  · exact .inr (.inr (.inr h))
  · exact .inl (by decide)
  · exact .inl (by decide)

theorem isBlank_of_isNumeralChar {c : Char} (h : isNumeralChar c = true) : Text.isBlank c = false := by
  rcases isWordChar_of_isNumeralChar h with h | rfl | rfl | rfl
  · exact isBlank_of_isWordChar h
  · decide
  · decide
  · decide

theorem escapeChar_of_isNumeralChar (f : Flavor) {c : Char} (h : isNumeralChar c = true) :
    f.escapeChar c = [c] := by
  rcases isWordChar_of_isNumeralChar h with h | rfl | rfl | rfl
  · exact escapeChar_of_isWordChar f h
  · cases f <;> rfl
  · cases f <;> rfl
  · cases f <;> rfl

theorem Proper.escape {n : Numeral} (hn : n.Proper) (f : Flavor) : f.escape n.text = n.text := by
  have h := List.flatMap_congr fun c hc => escapeChar_of_isNumeralChar f (hn.isNumeralChar c hc)
  rw [Flavor.escape, h, List.flatMap_singleton']

theorem Proper.strip {n : Numeral} (hn : n.Proper) : Text.strip n.text = n.text :=
  Text.trim_of_none fun c hc => isBlank_of_isNumeralChar (hn.isNumeralChar c hc)

end Numeral

/-! ## Blanks in front -/

/-- A numeral and nothing else. -/
def IsNumericLiteral (s : Text) : Prop := ∃ n : Numeral, n.Proper ∧ s = n.text

theorem isNumericLiteral_iff {s : Text} : IsNumericLiteral s ↔ (Numeral.read? s).isSome = true := by
  rw [Option.isSome_iff_exists]
  exact exists_congr fun n => by rw [Numeral.read?_eq_some_iff, and_comm]

instance (s : Text) : Decidable (IsNumericLiteral s) := decidable_of_iff _ isNumericLiteral_iff.symm

theorem isNumeral_iff {s : Text} :
    isNumeral s = true ↔ IsNumericLiteral (Text.trimStart Text.isBlank s) := isNumericLiteral_iff.symm

theorem exists_of_isNumeral {s : Text} (h : isNumeral s = true) : ∃ n : Numeral, n.Proper ∧
    Text.trimStart Text.isBlank s = n.text ∧ s = s.takeWhile Text.isBlank ++ n.text := by
  obtain ⟨n, hn, hs⟩ := isNumeral_iff.mp h
  exact ⟨n, hn, hs, by rw [← hs]; exact List.takeWhile_append_dropWhile.symm⟩

theorem not_mem_of_isNumeral {s : Text} (h : isNumeral s = true) {c : Char}
    (hblank : Text.isBlank c = false) (hmember : Numeral.isNumeralChar c = false) : c ∉ s := by
  obtain ⟨n, hn, -, hs⟩ := exists_of_isNumeral h
  rw [hs]
  intro hc
  rcases List.mem_append.mp hc with hc | hc
  · rw [List.all_eq_true.mp List.all_takeWhile c hc] at hblank
    cases hblank
  · rw [hn.isNumeralChar c hc] at hmember
    cases hmember

theorem isCall_of_isNumeral {s : Text} (h : isNumeral s = true) : isCall s = false :=
  Bool.eq_false_iff.mpr fun hc =>
    not_mem_of_isNumeral h (by decide) (by decide) (paren_mem_of_isCall hc)

namespace Dialect

theorem direct?_of_isNumeral (d : Dialect) {s : Text} (h : isNumeral s = true) :
    d.direct? (.text s) = none := by
  have hnull : (Value.text s).isNull = false := by
    rw [Value.isNull, beq_eq_false_iff_ne]
    rintro rfl
    exact absurd h (by decide)
  have hempty : (Value.text s).isEmptyText = false := by
    cases s with
    | nil => exact absurd h (by decide)
    | cons c s => rfl
  simp [direct?, hnull, hempty, isCall_of_isNumeral h]

/-- A numeral leaves its placeholder bare. -/
theorem place_of_isNumeral (d : Dialect) {s : Text} (h : isNumeral s = true) (key : Text) :
    d.place (.text s) key = placeholder key := by
  rw [place, d.direct?_of_isNumeral h, Option.getD_none, dress, Value.isNumber, if_pos h]

end Dialect

/-! ## What is filled in -/

namespace Flavor

theorem isBlank_of_isEdge {f : Flavor} {c : Char} (h : f.isEdge c = true) : Text.isBlank c = true := by
  cases f with
  | mysql =>
    simp [isEdge] at h
    rcases h with rfl | rfl | rfl <;> decide
  | postgres | sqlite =>
    simp [isEdge] at h
    rcases h with rfl | rfl | rfl | rfl | rfl <;> decide

theorem isEdge_of_isNumeralChar (f : Flavor) {c : Char} (h : Numeral.isNumeralChar c = true) :
    f.isEdge c = false := by
  apply Bool.eq_false_iff.mpr
  intro he
  have hb := isBlank_of_isEdge he
  rw [Numeral.isBlank_of_isNumeralChar h] at hb
  cases hb

/-- The escape of a blank that is no edge shows. -/
theorem exists_mem_escapeChar (f : Flavor) {c : Char} (h : Text.isBlank c = true) :
    ∃ x ∈ f.escapeChar c, Numeral.isNumeralChar x = false := by
  have hc : Numeral.isNumeralChar c = false := by
    apply Bool.eq_false_iff.mpr
    intro hm
    rw [Numeral.isBlank_of_isNumeralChar hm] at h
    cases h
  cases f with
  | mysql =>
    simp only [escapeChar]
    split
    case h_8 => exact ⟨c, by simp, hc⟩
    all_goals exact ⟨'\\', by simp, by decide⟩
  | postgres | sqlite =>
    simp only [escapeChar]
    split
    · exact absurd h (by decide)
    · exact absurd h (by decide)
    · exact ⟨c, by simp, hc⟩

theorem stored_of_isNumeral (f : Flavor) {s : Text} (h : isNumeral s = true) : f.stored s = s := by
  have hnul := not_mem_of_isNumeral h (c := '\x00') (by decide) (by decide)
  cases f with
  | mysql => rfl
  | postgres | sqlite =>
    refine List.filter_eq_self.mpr fun c hc => ?_
    simp only [decide_eq_true_eq]
    rintro rfl
    exact hnul hc

/-- Of the blanks in front, those are left that come behind one without the right to go. -/
theorem filling_of_isNumeral (f : Flavor) {s : Text} (h : isNumeral s = true) :
    (Value.text s).filling (some f.escape) =
      f.escape (Text.trimStart f.isEdge (s.takeWhile Text.isBlank)) ++
        Text.trimStart Text.isBlank s := by
  obtain ⟨n, hn, hs, hsplit⟩ := exists_of_isNumeral h
  have hedge : ∀ c ∈ n.text, f.isEdge c = false := fun c hc =>
    f.isEdge_of_isNumeralChar (hn.isNumeralChar c hc)
  have htrim : Text.trim f.isEdge s =
      Text.trimStart f.isEdge (s.takeWhile Text.isBlank) ++ n.text := by
    conv_lhs => rw [hsplit]
    rw [Text.trim, Text.trimStart_append_of_head? fun c hc => hedge c (List.mem_of_mem_head? hc)]
    apply Text.trimEnd_of_getLast?
    rw [List.getLast?_append_of_ne_nil _ hn.ne_nil]
    exact fun c hc => hedge c (List.mem_of_getLast? hc)
  have hfill : (Value.text s).filling (some f.escape) = Text.trim Text.isPadding (f.escape s) := by
    simp [Value.filling, Value.raw, isCall_of_isNumeral h]
  rw [hfill, trim_escape, f.stored_of_isNumeral h, htrim, hs, escape, List.flatMap_append]
  exact congrArg (_ ++ ·) (hn.escape f)

theorem exists_mem_escape_of_blank {s : Text} {c : Char} (f : Flavor) (hc : c ∈ s.takeWhile Text.isBlank)
    (he : f.isEdge c = false) : ∃ x ∈ f.escape (Text.trimStart f.isEdge (s.takeWhile Text.isBlank)),
      Numeral.isNumeralChar x = false := by
  obtain ⟨x, hx, hm⟩ := f.exists_mem_escapeChar (List.all_eq_true.mp List.all_takeWhile c hc)
  exact ⟨x, List.mem_flatMap.mpr ⟨c, Text.mem_trimStart hc he, hx⟩, hm⟩

theorem fill_of_isNumeral (f : Flavor) {s : Text} (hs : isNumeral s = true) {bs : Bindings}
    {b : Binding} (hb : b ∈ bs.entries) (hv : b.value = .text s) (hk : ':' ∉ b.key)
    (ho : b.isOrdinal = false) :
    bs.fill (Dialect.ofFlavor f).cleaner? b.placeholder =
      b.value.filling (Dialect.ofFlavor f).cleaner? := by
  obtain ⟨pre, post, he⟩ := List.append_of_mem hb
  have hnodup := bs.nodup_keys
  rw [Bindings.Raw.keys, he] at hnodup
  -- no value behind it finds a placeholder in what has been filled in
  have hcolon : ':' ∉ b.value.filling (Dialect.ofFlavor f).cleaner? := by
    rw [hv, (Dialect.ofFlavor f).filling_of_not_call (v := .text s) (isCall_of_isNumeral hs)]
    exact Dialect.colon_not_mem_body (Dialect.addsNoColon_ofFlavor f)
      (not_mem_of_isNumeral hs (by decide) (by decide))
  have hfill : Bindings.fillAll (Dialect.ofFlavor f).cleaner? (pre ++ b :: post) b.placeholder =
      b.value.filling (Dialect.ofFlavor f).cleaner? :=
    Bindings.fillAll_placeholder_of_split _ (Bindings.key_ne_of_nodup hnodup) hk ho
      fun b' _ _ hi => hcolon (hi.subset (colon_mem_placeholder b'.key))
  rw [← he] at hfill
  exact hfill

/-- **What a numeral leaves in a statement.** Its placeholder stands bare and becomes the numeral behind
what is left of the blanks in front of it. Nothing is left if all of them are padding without an
escape; otherwise what stands there is no numeral. -/
theorem numeral_filled (f : Flavor) {s : Text} (hs : isNumeral s = true) :
    let d := Dialect.ofFlavor f
    let blanks := s.takeWhile Text.isBlank
    let number := Text.trimStart Text.isBlank s
    let written := f.escape (Text.trimStart f.isEdge blanks) ++ number
    IsNumericLiteral number ∧ (∀ key, d.place (.text s) key = placeholder key) ∧
    (∀ (b : Binding) (t : Text), b.value = .text s → b.isOrdinal = false →
      Bindings.fillOne d.cleaner? t b = Text.replace b.placeholder written t) ∧
    (∀ (bs : Bindings) (b : Binding), b ∈ bs.entries → b.value = .text s →
      ':' ∉ b.key → b.isOrdinal = false → bs.fill d.cleaner? b.placeholder = written) ∧
    ((∀ c ∈ blanks, f.isEdge c = true) → written = number) ∧
    ((∃ c ∈ blanks, f.isEdge c = false) → ¬ IsNumericLiteral written) := by
  intro d blanks number written
  have hnumber : IsNumericLiteral number := isNumeral_iff.mp hs
  have hfilling : (Value.text s).filling d.cleaner? = written := f.filling_of_isNumeral hs
  refine ⟨hnumber, d.place_of_isNumeral hs, ?_, ?_, ?_, ?_⟩
  · intro b t hv ho
    rw [Bindings.fillOne, ho, if_neg Bool.false_ne_true, hv, hfilling]
  · intro bs b hb hv hk ho
    rw [f.fill_of_isNumeral hs hb hv hk ho, hv, hfilling]
  · intro h
    have hnil : Text.trimStart f.isEdge blanks = [] := List.dropWhile_eq_nil_iff.mpr h
    simp only [written, hnil, escape, List.flatMap_nil, List.nil_append]
  · rintro ⟨c, hc, he⟩ ⟨n, hn, hw⟩
    obtain ⟨x, hx, hm⟩ := f.exists_mem_escape_of_blank hc he
    have hxw : x ∈ n.text := by
      rw [← hw]
      exact List.mem_append_left _ hx
    rw [hn.isNumeralChar x hxw] at hm
    cases hm

/-- Padding in front of a numeral, under a key that another value has asked for. -/
theorem numeral_filled_padded :
    let d := Dialect.ofFlavor .mysql
    let s := "\t \x0b-1.50e+3".toList
    let bs := ((Bindings.empty.bind "n".toList (.text "7:30".toList)).2.bind "n".toList (.text s)).2
    isNumeral s = true ∧ d.place (.text s) "n1".toList = ":n1:".toList ∧
      bs.fill d.cleaner? ":n1:".toList = "-1.50e+3".toList ∧ IsNumericLiteral "-1.50e+3".toList := by
  intro d s bs
  have hs : isNumeral s = true := by decide
  obtain ⟨hnumber, hplace, -, hfill, hall, -⟩ := numeral_filled .mysql hs
  have hblanks : ∀ c ∈ s.takeWhile Text.isBlank, Flavor.mysql.isEdge c = true :=
    List.all_eq_true.mp (by decide)
  have hwritten := hfill bs ⟨"n1".toList, .text s⟩ (by decide) rfl (by decide) (by decide)
  exact ⟨hs, hplace "n1".toList, hwritten.trans (hall hblanks), hnumber⟩

/-- The escape of a line feed is no padding, so it stays in front of the number. -/
theorem line_feed_left_behind :
    let d := Dialect.ofFlavor .mysql
    let s := "\n42".toList
    isNumeral s = true ∧ ∃ st, d.compile 0 (.insert "t".toList [⟨"a".toList, .text s⟩]) = (.ok st, 1) ∧
      (Value.text s).filling d.cleaner? = "\\n42".toList ∧
      st.sql = "INSERT INTO `t` (`a`) VALUES (\\n42)".toList ∧ ¬ IsNumericLiteral "\\n42".toList :=
  ⟨by decide, _, rfl, by decide, by decide +kernel, by decide⟩

end Flavor

end SqlForge
