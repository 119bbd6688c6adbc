import SqlForge.Binding
import SqlForge.Proofs.Texts

/-!
# Raw texts of values

Numbers and dates are spelled with digits and few other marks. They have no
brackets, so of all raw texts only texts are ever taken for calls.
-/

namespace SqlForge

theorem Text.not_mem_natural {c : Char} (hc : c.isDigit = false) (n : Nat) :
    c ∉ Text.natural n := by
  intro h
  rw [Text.isDigit_of_mem_natural h] at hc
  cases hc

theorem Text.not_mem_padded {c : Char} (hc : c.isDigit = false) (w n : Nat) :
    c ∉ Text.padded w n := by
  intro h
  rcases List.mem_append.mp h with h | h
  · rw [List.eq_of_mem_replicate h] at hc
    cases hc
  · exact Text.not_mem_natural hc n h

theorem Text.not_mem_integer {c : Char} (hc : c.isDigit = false) (hm : c ≠ '-') :
    ∀ z : Int, c ∉ Text.integer z
  | .ofNat n => Text.not_mem_natural hc n
  | .negSucc n => by
    rw [Text.integer, List.mem_cons]
    intro h
    rcases h with h | h
    · exact hm h
    · exact Text.not_mem_natural hc _ h

theorem Double.Decimal.paren_not_mem_text (x : Double.Decimal) : '(' ∉ x.text := by
  have hn := Text.not_mem_natural (show ('(' : Char).isDigit = false by decide)
  unfold Double.Decimal.text
  split
  · exact hn _
  · dsimp only
    split
    · exact hn _
    · rw [List.mem_append, List.mem_cons]
      intro h
      rcases h with h | h | h
      · exact hn _ h
      · exact absurd h (by decide)
      · exact Text.not_mem_padded (by decide) _ _ (Text.mem_of_mem_trimEnd h)

theorem Double.paren_not_mem_text (x : Double) : '(' ∉ x.text := by
  unfold Double.text
  split
  · decide
  · split <;> decide
  · rename_i negative mantissa power _
    have hs : '(' ∉ (if mantissa = 0 then ['0'] else (Double.shortest mantissa power).text) := by
      split
      · decide
      · exact Double.Decimal.paren_not_mem_text _
    dsimp only
    cases negative with
    | true =>
      rw [if_pos rfl, List.mem_cons]
      intro h
      rcases h with h | h
      · exact absurd h (by decide)
      · exact hs h
    | false => exact hs

theorem DateTime.paren_not_mem_text (t : DateTime) : '(' ∉ t.text := by
  have hp := Text.not_mem_padded (show ('(' : Char).isDigit = false by decide)
  have hy : '(' ∉ DateTime.yearText t.year := by
    unfold DateTime.yearText
    rw [List.mem_append]
    intro h
    rcases h with h | h
    · split at h <;> exact absurd h (by decide)
    · exact hp _ _ h
  simp [DateTime.text, hp, hy]

theorem Value.paren_not_mem_raw {v : Value} (h : v.text? = none) : '(' ∉ v.raw := by
  cases v with
  | null => exact List.not_mem_nil
  | bool b => cases b <;> decide
  | signed n => exact Text.not_mem_integer (by decide) (by decide) _
  | unsigned n => exact Text.not_mem_natural (by decide) _
  | double x => exact x.paren_not_mem_text
  | dateTime t => exact t.paren_not_mem_text
  | text s => cases h

theorem paren_mem_of_isCall {s : Text} (h : isCall s = true) : '(' ∈ s := by
  unfold isCall Call.read? at h
  split at h
  · rename_i hd
    have hp : '(' ∈ s.dropWhile Call.isNameChar := by rw [hd]; exact List.mem_cons_self
    exact (List.dropWhile_sublist _).mem hp
  · cases h

theorem Value.isCall_raw {v : Value} (h : v.text? = none) : isCall v.raw = false :=
  Bool.eq_false_iff.mpr fun hc => Value.paren_not_mem_raw h (paren_mem_of_isCall hc)

end SqlForge
