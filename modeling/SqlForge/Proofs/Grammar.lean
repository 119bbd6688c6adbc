import SqlForge.Proofs.Numerals

/-!
# The grammar of numbers

A numeral is read as two runs of digits with a point between them. The grammar knows of no runs: a
mantissa is made of digits with a point somewhere, at most once, and one digit at least. Cut at its
point, a mantissa leaves the two runs, and a mantissa without a point is one run, so both accept the
same texts.
-/

namespace SqlForge

namespace Text

/-! ## Parts of a number

The digits are those of ASCII. -/

/-- At most one sign. -/
inductive IsSign : Text → Prop
  | none : IsSign []
  | plus : IsSign ['+']
  | minus : IsSign ['-']

/-- Digits, one at least, and a point at most, wherever it stands. -/
structure IsMantissa (s : Text) : Prop where
  digit_or_point : ∀ c ∈ s, c.isDigit = true ∨ c = '.'
  count_point : s.count '.' ≤ 1
  exists_digit : ∃ c ∈ s, c.isDigit = true

/-- Nothing, or the mark of an exponent with a sign or none and digits, one at least. -/
inductive IsExponent : Text → Prop
  | none : IsExponent []
  | some {mark : Char} {sign digits : Text} (hmark : mark = 'e' ∨ mark = 'E') (hsign : IsSign sign)
      (hne : digits ≠ []) (hdigits : ∀ c ∈ digits, c.isDigit = true) :
      IsExponent (mark :: (sign ++ digits))

/-- Blanks in front, then a sign or none, a mantissa, an exponent or none, and nothing behind it. -/
inductive IsNumber : Text → Prop
  | intro {blanks sign mantissa exponent : Text} (hblanks : ∀ c ∈ blanks, isBlank c = true)
      (hsign : IsSign sign) (hmantissa : IsMantissa mantissa) (hexponent : IsExponent exponent) :
      IsNumber (blanks ++ (sign ++ (mantissa ++ exponent)))

theorem isSign_iff {s : Text} :
    IsSign s ↔ ∃ sign : Option Char, s = sign.toList ∧ ∀ c ∈ sign, c = '+' ∨ c = '-' := by
  constructor
  · intro h
    cases h with
    | none => exact ⟨none, rfl, by simp⟩
    | plus => exact ⟨some '+', rfl, by simp⟩
    | minus => exact ⟨some '-', rfl, by simp⟩
  · rintro ⟨sign, rfl, h⟩
    cases sign with
    | none => exact .none
    | some c =>
      rcases h c rfl with rfl | rfl
      · exact .plus
      · exact .minus

theorem isExponent_iff {s : Text} :
    IsExponent s ↔ ∃ e? : Option Exponent, s = e?.elim [] Exponent.text ∧ ∀ e ∈ e?, e.Proper := by
  constructor
  · intro h
    cases h with
    | none => exact ⟨none, rfl, by simp⟩
    | @some mark _ digits hmark hsign hne hdigits =>
      obtain ⟨sign, rfl, hs⟩ := isSign_iff.mp hsign
      refine ⟨some ⟨mark, sign, digits⟩, rfl, ?_⟩
      intro e he
      cases he
      exact ⟨hmark, hs, hne, hdigits⟩
  · rintro ⟨e?, rfl, h⟩
    cases e? with
    | none => exact .none
    | some e =>
      obtain ⟨hmark, hsign, hne, hdigits⟩ := h e rfl
      exact .some hmark (isSign_iff.mpr ⟨e.sign, rfl, hsign⟩) hne hdigits

/-! ## Runs of digits -/

theorem point_not_mem_digits {s : Text} (h : ∀ c ∈ s, c.isDigit = true) : '.' ∉ s := fun hp =>
  absurd (h '.' hp) (by decide)

theorem IsMantissa.digit_of_no_point {s : Text} (h : IsMantissa s) (hp : '.' ∉ s) :
    ∀ c ∈ s, c.isDigit = true := fun c hc =>
  (h.digit_or_point c hc).resolve_right fun e => hp (e ▸ hc)

theorem isMantissa_of_digits {s : Text} (h : ∀ c ∈ s, c.isDigit = true) (hne : s ≠ []) :
    IsMantissa s := by
  obtain ⟨c, s, rfl⟩ := List.exists_cons_of_ne_nil hne
  have hp : List.count '.' (c :: s) = 0 := List.count_eq_zero.mpr (point_not_mem_digits h)
  exact ⟨fun x hx => .inl (h x hx), by omega, c, List.mem_cons_self, h c List.mem_cons_self⟩

/-- A mantissa with a point in it is two runs of digits around the point, not both empty. -/
theorem isMantissa_append_point {whole ds : Text} : IsMantissa (whole ++ '.' :: ds) ↔
    (∀ c ∈ whole, c.isDigit = true) ∧ (∀ c ∈ ds, c.isDigit = true) ∧ (whole ≠ [] ∨ ds ≠ []) := by
  constructor
  · intro h
    have hcount := h.count_point
    rw [List.count_append, List.count_cons_self] at hcount
    -- the point in sight leaves none for the runs
    have hw : '.' ∉ whole := List.count_eq_zero.mp (by omega)
    have hd : '.' ∉ ds := List.count_eq_zero.mp (by omega)
    have hdigit : ∀ c ∈ whole ++ '.' :: ds, c ≠ '.' → c.isDigit = true := fun c hc =>
      (h.digit_or_point c hc).resolve_right
    refine ⟨fun c hc => ?_, fun c hc => ?_, ?_⟩
    · exact hdigit c (by simp [hc]) fun e => hw (e ▸ hc)
    · exact hdigit c (by simp [hc]) fun e => hd (e ▸ hc)
    · obtain ⟨c, hc, hdig⟩ := h.exists_digit
      rcases List.mem_append.mp hc with hc | hc
      · exact .inl (List.ne_nil_of_mem hc)
      · rcases List.mem_cons.mp hc with rfl | hc
        · exact absurd hdig (by decide)
        · exact .inr (List.ne_nil_of_mem hc)
  · rintro ⟨hw, hd, hne⟩
    refine ⟨fun c hc => ?_, ?_, ?_⟩
    · rcases List.mem_append.mp hc with hc | hc
      · exact .inl (hw c hc)
      · rcases List.mem_cons.mp hc with rfl | hc
        · exact .inr rfl
        · exact .inl (hd c hc)
    · rw [List.count_append, List.count_cons_self, List.count_eq_zero.mpr (point_not_mem_digits hw),
        List.count_eq_zero.mpr (point_not_mem_digits hd)]
    · rcases hne with hne | hne
      · obtain ⟨c, hc⟩ := List.exists_mem_of_ne_nil _ hne
        exact ⟨c, List.mem_append_left _ hc, hw c hc⟩
      · obtain ⟨c, hc⟩ := List.exists_mem_of_ne_nil _ hne
        exact ⟨c, by simp [hc], hd c hc⟩

theorem isMantissa_iff {s : Text} : IsMantissa s ↔ ∃ (whole : Text) (fraction : Option Text),
    s = whole ++ fraction.elim [] ('.' :: ·) ∧ (∀ c ∈ whole, c.isDigit = true) ∧
      (∀ ds ∈ fraction, ∀ c ∈ ds, c.isDigit = true) ∧ (whole ≠ [] ∨ fraction.getD [] ≠ []) := by
  constructor
  · intro h
    by_cases hp : '.' ∈ s
    · obtain ⟨whole, ds, rfl⟩ := List.append_of_mem hp
      obtain ⟨hw, hd, hne⟩ := isMantissa_append_point.mp h
      refine ⟨whole, some ds, rfl, hw, ?_, hne⟩
      intro ds' hds'
      cases hds'
      exact hd
    · obtain ⟨c, hc, -⟩ := h.exists_digit
      refine ⟨s, none, (List.append_nil s).symm, h.digit_of_no_point hp, by simp, ?_⟩
      exact .inl (List.ne_nil_of_mem hc)
  · rintro ⟨whole, fraction, rfl, hw, hf, hne⟩
    cases fraction with
    | some ds => exact isMantissa_append_point.mpr ⟨hw, hf ds rfl, hne⟩
    | none =>
      have hne' : whole ≠ [] := hne.resolve_right (by simp)
      rw [Option.elim_none, List.append_nil]
      exact isMantissa_of_digits hw hne'

end Text

/-! ## Numbers -/

open Text in
theorem isNumericLiteral_iff_parts {s : Text} : IsNumericLiteral s ↔
    ∃ sign mantissa exponent, s = sign ++ (mantissa ++ exponent) ∧ IsSign sign ∧
      IsMantissa mantissa ∧ IsExponent exponent := by
  constructor
  · rintro ⟨n, hn, rfl⟩
    refine ⟨n.sign.toList, n.whole ++ n.fraction.elim [] ('.' :: ·),
      n.exponent.elim [] Exponent.text, ?_, ?_, ?_, ?_⟩
    · rw [Numeral.text, List.append_assoc]
    · exact isSign_iff.mpr ⟨n.sign, rfl, hn.sign⟩
    · exact isMantissa_iff.mpr ⟨n.whole, n.fraction, rfl, hn.whole, hn.fraction, hn.digit⟩
    · exact isExponent_iff.mpr ⟨n.exponent, rfl, hn.exponent⟩
  · rintro ⟨_, _, _, rfl, hsign, hmantissa, hexponent⟩
    obtain ⟨sign, rfl, hs⟩ := isSign_iff.mp hsign
    obtain ⟨whole, fraction, rfl, hw, hf, hd⟩ := isMantissa_iff.mp hmantissa
    obtain ⟨exponent, rfl, he⟩ := isExponent_iff.mp hexponent
    refine ⟨⟨sign, whole, fraction, exponent⟩, ⟨hs, hw, hf, hd, he⟩, ?_⟩
    rw [Numeral.text, List.append_assoc]

theorem IsNumericLiteral.trimStart {s : Text} (h : IsNumericLiteral s) :
    Text.trimStart Text.isBlank s = s := by
  obtain ⟨n, hn, rfl⟩ := h
  exact Text.trimStart_of_trim hn.strip

/-- **What counts as a number.** Blanks, a sign or none, digits with at most one point, an exponent or
none; every text that is put together so, and no other. -/
theorem isNumeral_iff_isNumber (s : Text) : isNumeral s = true ↔ Text.IsNumber s := by
  rw [isNumeral_iff]
  constructor
  · intro h
    have hs : s = s.takeWhile Text.isBlank ++ Text.trimStart Text.isBlank s :=
      List.takeWhile_append_dropWhile.symm
    obtain ⟨sign, mantissa, exponent, he, hsign, hmantissa, hexponent⟩ :=
      isNumericLiteral_iff_parts.mp h
    rw [hs, he]
    exact .intro (List.all_eq_true.mp List.all_takeWhile) hsign hmantissa hexponent
  · rintro ⟨hblanks, hsign, hmantissa, hexponent⟩
    have h := isNumericLiteral_iff_parts.mpr ⟨_, _, _, rfl, hsign, hmantissa, hexponent⟩
    rw [Text.trimStart_append hblanks, h.trimStart]
    exact h

example : isNumeral "\u2003\n-.5E+07".toList = true := by decide

example : isNumeral "1.2.3".toList = false := by decide

end SqlForge
