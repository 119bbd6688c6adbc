import SqlForge.Condition.Operator
import SqlForge.Proofs.Words
import Mathlib.Data.List.Basic

/-!
# The operator of a key

A key may end in several operators at once, since one keyword may end in another: what ends in
`NOT LIKE` ends in `LIKE` too. Operators are tried from the longest on, so the longest wins, and no
other one of its length fits. Put behind a column, an operator is found again unless the last word of
the column makes a longer one of it, and the only word that does so is `NOT`.
-/

namespace SqlForge

/-! ## Words between blanks -/

namespace Text

/-- What stands behind the last blank of `s`. -/
def lastWord (s : Text) : Text := (s.reverse.takeWhile fun c => !isBlank c).reverse

theorem lastWord_append {gap word : Text} (hgap : gap ≠ []) (hblank : ∀ c ∈ gap, isBlank c = true)
    (hword : ∀ c ∈ word, isBlank c = false) (front : Text) :
    lastWord (front ++ (gap ++ word)) = word := by
  obtain ⟨gap, c, rfl⟩ := (List.eq_nil_or_concat gap).resolve_left hgap
  have hc : isBlank c = true := hblank c (by simp)
  have hpos : ∀ x ∈ word.reverse, (!isBlank x) = true := fun x hx => by
    simp [hword x (List.mem_reverse.mp hx)]
  rw [lastWord, List.reverse_append, List.reverse_append, List.append_assoc,
    List.takeWhile_append_of_pos hpos]
  simp [hc]

end Text

namespace Operator

/-! ## Keywords -/

theorem mem_longestFirst (op : Operator) : op ∈ longestFirst := by
  cases op <;> decide

theorem pairwise_longestFirst :
    longestFirst.Pairwise fun a b => b.keyword.length ≤ a.keyword.length := by decide

theorem keyword_injective {a b : Operator} (h : Text.lower a.keyword = Text.lower b.keyword) :
    a = b := by
  have hall : ∀ a ∈ longestFirst, ∀ b ∈ longestFirst,
      Text.lower a.keyword = Text.lower b.keyword → a = b := by decide
  exact hall a a.mem_longestFirst b b.mem_longestFirst h

theorem isBlank_getLast?_keyword (op : Operator) :
    ∀ c ∈ (Text.lower op.keyword).getLast?, Text.isBlank c = false :=
  (Option.any_eq_false _ _).mp (by cases op <;> decide)

theorem keyword_ne_nil (op : Operator) : op.keyword ≠ [] := by
  cases op <;> decide

/-- A longer keyword in which another one stands behind a blank has `NOT` before that blank. -/
theorem lower_front {long short : Operator} {front : Text} (hne : front ≠ [])
    (h : Text.lower long.keyword = front ++ Text.lower short.keyword)
    (hblank : ∀ c ∈ front.getLast?, Text.isBlank c = true) : front = "not ".toList := by
  have hall : ∀ long ∈ longestFirst, ∀ short ∈ longestFirst,
      ∀ n ∈ List.range' 1 (Text.lower long.keyword).length,
        (Text.lower long.keyword).drop n = Text.lower short.keyword →
        ((Text.lower long.keyword).take n).getLast?.all Text.isBlank = true →
        (Text.lower long.keyword).take n = "not ".toList := by decide
  have hn : front.length ∈ List.range' 1 (Text.lower long.keyword).length := by
    have hpos := List.length_pos_iff.mpr hne
    rw [List.mem_range'_1, h, List.length_append]
    omega
  have := hall long long.mem_longestFirst short short.mem_longestFirst front.length hn
  rw [h, List.drop_left, List.take_left] at this
  exact this rfl ((Option.all_eq_true _ _).mpr hblank)

/-! ## Keys that end in an operator -/

/-- A column with something in it, one blank or more, and the keyword of `op` in any letter case. -/
structure Follows (op : Operator) (column gap word : Text) : Prop where
  column : ∃ c ∈ column, Text.isBlank c = false
  gap_ne : gap ≠ []
  gap : ∀ c ∈ gap, Text.isBlank c = true
  word : Text.sameLetters word op.keyword = true

/-- `key` is made of `column`, of blanks, and of the keyword of `op`. -/
def Fits (op : Operator) (column key : Text) : Prop :=
  ∃ gap word, key = column ++ (gap ++ word) ∧ op.Follows column gap word

namespace Follows

variable {op : Operator} {column gap word : Text} (h : op.Follows column gap word)
include h

theorem lower_word : Text.lower word = Text.lower op.keyword := beq_iff_eq.mp h.word

theorem length_word : word.length = op.keyword.length := Text.length_eq_of_sameLetters h.word

theorem trimEnd_ne_nil : Text.trimEnd Text.isBlank column ≠ [] := by
  intro hnil
  obtain ⟨c, hc, hblank⟩ := h.column
  obtain ⟨r, hr, hall, -⟩ := Text.exists_trimEnd Text.isBlank column
  rw [hnil, List.nil_append] at hr
  rw [hr] at hc
  rw [hall c hc] at hblank
  cases hblank

theorem column?_eq :
    op.column? (column ++ (gap ++ word)) = some (Text.trimEnd Text.isBlank column) := by
  have hsize : (column ++ (gap ++ word)).length - op.keyword.length = (column ++ gap).length := by
    have := h.length_word
    simp only [List.length_append]
    omega
  have htake : (column ++ (gap ++ word)).take (column ++ gap).length = column ++ gap := by
    rw [← List.append_assoc, List.take_left]
  have hdrop : (column ++ (gap ++ word)).drop (column ++ gap).length = word := by
    rw [← List.append_assoc, List.drop_left]
  have hne : Text.trimEnd Text.isBlank column ≠ column ++ gap := by
    intro he
    obtain ⟨r, hr, -⟩ := Text.exists_trimEnd Text.isBlank column
    have hle := congrArg List.length hr
    have hlen := congrArg List.length he
    have hpos := List.length_pos_iff.mpr h.gap_ne
    simp only [List.length_append] at hle hlen
    omega
  simp only [column?, hsize, htake, hdrop, Text.trimEnd_append h.gap column, h.word, h.trimEnd_ne_nil,
    hne, ne_eq, not_false_eq_true, and_self, ite_true]

end Follows

theorem fits_of_column? {op : Operator} {column key : Text} (h : op.column? key = some column) :
    op.Fits column key := by
  unfold column? at h
  simp only at h
  split at h
  · rename_i hc
    obtain ⟨hword, hgap, hcolumn⟩ := hc
    cases h
    obtain ⟨gap, hr, hblank, hlast⟩ :=
      Text.exists_trimEnd Text.isBlank (key.take (key.length - op.keyword.length))
    refine ⟨gap, key.drop (key.length - op.keyword.length), ?_, ?_, ?_, hblank, hword⟩
    · rw [← List.append_assoc, ← hr, List.take_append_drop]
    · obtain ⟨column, c, hc⟩ := (List.eq_nil_or_concat _).resolve_left hcolumn
      rw [hc] at hlast ⊢
      exact ⟨c, by simp, hlast c (by simp)⟩
    · rintro rfl
      rw [List.append_nil] at hr
      exact hgap hr.symm
  · cases h

theorem Fits.column?_eq {op : Operator} {column key : Text} (h : op.Fits column key) :
    op.column? key = some (Text.trimEnd Text.isBlank column) := by
  obtain ⟨gap, word, rfl, hs⟩ := h
  exact hs.column?_eq

/-- Of two operators of one length at most one fits. -/
theorem Fits.eq_of_length {a b : Operator} {column column' key : Text} (ha : a.Fits column key)
    (hb : b.Fits column' key) (hl : a.keyword.length = b.keyword.length) : a = b := by
  obtain ⟨gap, word, rfl, hs⟩ := ha
  obtain ⟨gap', word', he, hs'⟩ := hb
  have hword : word = word' := by
    rw [← List.append_assoc, ← List.append_assoc] at he
    exact (List.append_inj' he (by rw [hs.length_word, hs'.length_word, hl])).2
  apply keyword_injective
  rw [← hs.lower_word, ← hs'.lower_word, hword]

/-! ## The longest one -/

/-- An operator in which the key ends, and which is longer than every other one. -/
structure Longest (op : Operator) (column key : Text) : Prop where
  fits : op.Fits column key
  longer : ∀ op' column', op'.Fits column' key → op' = op ∨ op'.keyword.length < op.keyword.length

/-- The first operator that fits is the longest one, for what stands before it does not fit, and what
stands behind it is no longer. -/
theorem exists_longest {op : Operator} {column key : Text} (h : op.Fits column (Text.strip key)) :
    ∃ op column, op.Longest column (Text.strip key) ∧
      ofKey key = (Text.trimEnd Text.isBlank column, op) := by
  cases hfind : longestFirst.findSome? fun op => (op.column? (Text.strip key)).map (·, op) with
  | none =>
    have hnone := List.findSome?_eq_none_iff.mp hfind op op.mem_longestFirst
    rw [h.column?_eq] at hnone
    cases hnone
  | some found =>
    obtain ⟨before, a, behind, hlist, ha, hbefore⟩ := List.findSome?_eq_some_iff.mp hfind
    obtain ⟨column', hcolumn, rfl⟩ := Option.map_eq_some_iff.mp ha
    have hfits := fits_of_column? hcolumn
    have htrim : Text.trimEnd Text.isBlank column' = column' :=
      Option.some.inj (hfits.column?_eq.symm.trans hcolumn)
    refine ⟨a, column', ⟨hfits, fun b column'' hb => ?_⟩, ?_⟩
    · have hmem := b.mem_longestFirst
      have hpair := pairwise_longestFirst
      rw [hlist, List.pairwise_append, List.pairwise_cons] at hpair
      rw [hlist, List.mem_append, List.mem_cons] at hmem
      rcases hmem with hm | rfl | hm
      · have hnone := hbefore b hm
        rw [hb.column?_eq] at hnone
        cases hnone
      · exact .inl rfl
      · rcases Nat.lt_or_eq_of_le (hpair.2.1.1 b hm) with hlt | heq
        · exact .inr hlt
        · exact .inl (hb.eq_of_length hfits heq)
    · simp only [ofKey, hfind, Option.getD_some, htrim]

theorem Longest.ofKey_eq {op : Operator} {column key : Text}
    (h : op.Longest column (Text.strip key)) :
    ofKey key = (Text.trimEnd Text.isBlank column, op) := by
  obtain ⟨a, column', ha, hkey⟩ := exists_longest h.fits
  have hop : a = op := by
    rcases h.longer a column' ha.fits with he | hlt
    · exact he
    · rcases ha.longer op column h.fits with he | hgt
      · exact he.symm
      · omega
  subst hop
  have hcolumn := ha.fits.column?_eq.symm.trans h.fits.column?_eq
  rw [hkey, Option.some.inj hcolumn]

theorem ofKey_of_no_operator {key : Text} (h : ∀ op column, ¬ Fits op column (Text.strip key)) :
    ofKey key = (Text.strip key, equal) := by
  have hnone :
      (longestFirst.findSome? fun op => (op.column? (Text.strip key)).map (·, op)) = none := by
    refine List.findSome?_eq_none_iff.mpr fun op _ => ?_
    cases hc : op.column? (Text.strip key) with
    | none => rfl
    | some column => exact absurd (fits_of_column? hc) (h op column)
  simp only [ofKey, hnone, Option.getD_none]

/-! ## Keys put together -/

theorem eq_not_of_append {front gap : Text} (hgap : gap ≠ [])
    (hblank : ∀ c ∈ gap, Text.isBlank c = true) (h : front ++ gap = "not ".toList) :
    front = "not".toList := by
  obtain ⟨r, hr, -⟩ := Text.exists_trimEnd Text.isBlank front
  have htrim := congrArg (Text.trimEnd Text.isBlank) h
  have hnot : Text.trimEnd Text.isBlank "not ".toList = "not".toList := by decide
  rw [Text.trimEnd_append hblank, hnot] at htrim
  rw [htrim] at hr
  have hlen := congrArg List.length h
  have hpos := List.length_pos_iff.mpr hgap
  rw [List.length_append, hr, List.length_append] at hlen
  have hnil : r = [] := by
    change 3 + r.length + gap.length = 4 at hlen
    exact List.length_eq_zero_iff.mp (by omega)
  rw [hr, hnil, List.append_nil]

namespace Follows

variable {op : Operator} {column gap word : Text} (h : op.Follows column gap word)
include h

/-- Of a longer operator that fits too, `NOT` and a blank stand in front of the shorter one. -/
theorem exists_front {longer : Operator} {column' gap' word' : Text}
    (h' : longer.Follows column' gap' word') (hlength : op.keyword.length < longer.keyword.length)
    (he : column ++ (gap ++ word) = column' ++ (gap' ++ word')) :
    ∃ front, column ++ gap = (column' ++ gap') ++ front ∧ Text.lower front = "not ".toList := by
  have hends : word <:+ column ++ (gap ++ word) := ⟨column ++ gap, List.append_assoc _ _ _⟩
  have hends' : word' <:+ column ++ (gap ++ word) := ⟨column' ++ gap', by rw [he, List.append_assoc]⟩
  have hle : word.length ≤ word'.length := by
    rw [h.length_word, h'.length_word]
    omega
  obtain ⟨front, rfl⟩ := List.suffix_of_suffix_length_le hends hends' hle
  have hseam : column ++ gap = (column' ++ gap') ++ front := by
    rw [← List.append_assoc, ← List.append_assoc, ← List.append_assoc] at he
    exact List.append_cancel_right he
  have hfront : front ≠ [] := by
    rintro rfl
    have := h'.length_word
    rw [List.nil_append, h.length_word] at this
    omega
  have hkeyword : Text.lower longer.keyword = Text.lower front ++ Text.lower op.keyword := by
    rw [← h'.lower_word, ← h.lower_word, Text.lower_append]
  refine ⟨front, hseam, lower_front ?_ hkeyword ?_⟩
  · exact fun hn => hfront (List.map_eq_nil_iff.mp hn)
  · -- it ends where the blanks end
    have hend := congrArg List.getLast? hseam
    rw [List.getLast?_append_of_ne_nil _ h.gap_ne, List.getLast?_append_of_ne_nil _ hfront] at hend
    refine isBlank_getLast?_lower.mpr fun c hc => ?_
    rw [← hend] at hc
    exact h.gap c (List.mem_of_getLast? hc)

theorem lastWord_of_longer {longer : Operator} {column' gap' word' : Text}
    (h' : longer.Follows column' gap' word') (hlength : op.keyword.length < longer.keyword.length)
    (he : column ++ (gap ++ word) = column' ++ (gap' ++ word')) :
    Text.sameLetters (Text.lastWord column) "NOT".toList = true := by
  obtain ⟨front, hseam, hfront⟩ := h.exists_front h' hlength he
  rcases List.append_eq_append_iff.mp hseam with ⟨blanks, -, hgap⟩ | ⟨last, hcolumn, hlast⟩
  · -- it cannot be made of blanks
    have hn : 'n' ∈ Text.lower front := by rw [hfront]; decide
    have hblanks : ∀ c ∈ front, Text.isBlank c = true := fun c hc =>
      h.gap c (by rw [hgap]; exact List.mem_append_right _ hc)
    exact absurd (isBlank_lower.mpr hblanks 'n' hn) (by decide)
  · have hnot : Text.lower last ++ Text.lower gap = "not ".toList := by
      rw [← Text.lower_append, ← hlast, hfront]
    have hword : Text.lower last = "not".toList := by
      refine eq_not_of_append ?_ (isBlank_lower.mpr h.gap) hnot
      exact fun hn => h.gap_ne (List.map_eq_nil_iff.mp hn)
    have hbare : ∀ c ∈ Text.lower last, Text.isBlank c = false := fun c hc =>
      isBlank_of_isWordChar (isWordChar_of_mem (by rw [hword]; decide) hc)
    rw [hcolumn, List.append_assoc,
      Text.lastWord_append h'.gap_ne h'.gap (isBlank_lower.mp hbare), Text.sameLetters, hword]
    decide

theorem longest (hlast : Text.sameLetters (Text.lastWord column) "NOT".toList = false) :
    op.Longest column (column ++ (gap ++ word)) := by
  refine ⟨⟨gap, word, rfl, h⟩, fun op' column' h' => ?_⟩
  rcases Nat.lt_trichotomy op'.keyword.length op.keyword.length with hlt | heq | hgt
  · exact .inr hlt
  · exact .inl (h'.eq_of_length ⟨gap, word, rfl, h⟩ heq)
  · obtain ⟨gap', word', he, hs'⟩ := h'
    rw [h.lastWord_of_longer hs' hgt he] at hlast
    cases hlast

theorem strip_eq (hcolumn : Text.strip column = column) :
    Text.strip (column ++ (gap ++ word)) = column ++ (gap ++ word) := by
  obtain ⟨c, hc, -⟩ := h.column
  have hword : word ≠ [] := by
    rintro rfl
    exact op.keyword_ne_nil (List.length_eq_zero_iff.mp h.length_word.symm)
  apply Text.trim_of_ends
  · rw [List.head?_append_of_ne_nil _ (List.ne_nil_of_mem hc)]
    exact (Text.ends_of_trim hcolumn).1
  · rw [← List.append_assoc, List.getLast?_append_of_ne_nil _ hword]
    refine isBlank_getLast?_lower.mp ?_
    rw [h.lower_word]
    exact op.isBlank_getLast?_keyword

end Follows

/-- **The longest operator wins.** A key that ends in an operator is split into the longest one, of
which there is only one, and the column before it; any other key is a column that is compared for
equality. What is put together from a trimmed column, blanks and an operator is split into them,
unless the column ends in the word `NOT`. -/
theorem ofKey_longest :
    (∀ key : Text,
      ((∃ op column, Fits op column (Text.strip key)) →
        ∃ op column, op.Fits column (Text.strip key) ∧
          ofKey key = (Text.trimEnd Text.isBlank column, op) ∧
          ∀ op' column', op'.Fits column' (Text.strip key) →
            (op' = op ∧ Text.trimEnd Text.isBlank column' = Text.trimEnd Text.isBlank column) ∨
              op'.keyword.length < op.keyword.length) ∧
      ((¬ ∃ op column, Fits op column (Text.strip key)) → ofKey key = (Text.strip key, equal))) ∧
    ∀ (op : Operator) (column gap word : Text), op.Follows column gap word →
      Text.strip column = column → Text.sameLetters (Text.lastWord column) "NOT".toList = false →
      ofKey (column ++ (gap ++ word)) = (column, op) := by
  refine ⟨fun key => ⟨?_, ?_⟩, ?_⟩
  · rintro ⟨op, column, h⟩
    obtain ⟨longest, column', hl, hkey⟩ := exists_longest h
    refine ⟨longest, column', hl.fits, hkey, fun op' column'' h' => ?_⟩
    rcases hl.longer op' column'' h' with rfl | hlt
    · exact .inl ⟨rfl, Option.some.inj (h'.column?_eq.symm.trans hl.fits.column?_eq)⟩
    · exact .inr hlt
  · intro hno
    exact ofKey_of_no_operator fun op column h => hno ⟨op, column, h⟩
  · intro op column gap word h hcolumn hlast
    have hl := h.longest hlast
    rw [← h.strip_eq hcolumn] at hl
    rw [hl.ofKey_eq, Text.trimEnd_of_getLast? (Text.ends_of_trim hcolumn).2]

/-- A key in which two operators fit, one in which none does, and one put together. -/
theorem ofKey_longest_cases :
    let key : Text := " Title\u2003not LIKE ".toList
    let column : Text := "t.is not, IS".toList
    let gap : Text := "\t ".toList
    let word : Text := "iS nUlL".toList
    (Fits like "Title\u2003not".toList (Text.strip key) ∧
      ∃ column, Fits notLike column (Text.strip key) ∧
        ofKey key = (Text.trimEnd Text.isBlank column, notLike) ∧
        Text.trimEnd Text.isBlank column = "Title".toList) ∧
    ((¬ ∃ op column, Fits op column (Text.strip "age>= ".toList)) ∧
      ofKey "age>= ".toList = (Text.strip "age>= ".toList, equal)) ∧
    Follows isNull column gap word ∧ Text.strip column = column ∧
      Text.sameLetters (Text.lastWord column) "NOT".toList = false ∧
      ofKey (column ++ (gap ++ word)) = (column, isNull) := by
  intro key column gap word
  obtain ⟨hsplit, hjoin⟩ := ofKey_longest
  have hlike : Fits like "Title\u2003not".toList (Text.strip key) :=
    ⟨[' '], "LIKE".toList, by decide, ⟨'T', by decide, by decide⟩, by decide,
      List.all_eq_true.mp (by decide), by decide⟩
  have hnone : ¬ ∃ op column, Fits op column (Text.strip "age>= ".toList) := by
    rintro ⟨op, column, h⟩
    have hall : ∀ op ∈ longestFirst, op.column? (Text.strip "age>= ".toList) = none := by decide
    have hcolumn := h.column?_eq
    rw [hall op op.mem_longestFirst] at hcolumn
    cases hcolumn
  have hfollows : Follows isNull column gap word :=
    ⟨⟨'t', by decide, by decide⟩, by decide, List.all_eq_true.mp (by decide), by decide⟩
  obtain ⟨op, before, hfits, hkey, -⟩ := (hsplit key).1 ⟨like, _, hlike⟩
  have hrun : ofKey key = ("Title".toList, notLike) := by decide
  obtain ⟨hcolumn, rfl⟩ := Prod.mk.inj (hrun.symm.trans hkey)
  exact ⟨⟨hlike, before, hfits, hkey, hcolumn.symm⟩, ⟨hnone, (hsplit _).2 hnone⟩, hfollows, by decide,
    by decide, hjoin isNull column gap word hfollows (by decide) (by decide)⟩

end Operator

end SqlForge
