import SqlForge.Statement
import SqlForge.Table.Catalog
import SqlForge.Proofs.Values
import SqlForge.Proofs.Words

/-!
# Tables created again from their description

A definition shows less of a column than the column holds: a length becomes that of the next type
that has room for it, flags and comments without effect are left out. What the catalog gives back
is the column reduced to what is shown. It has the definition that it was read off, so a table that
is created from its own description is the same table.
-/

namespace SqlForge

/-! ## Types between brackets -/

theorem strip_cons {c : Char} (hc : Text.isBlank c = true) (s : Text) :
    Text.strip (c :: s) = Text.strip s := by
  have h := Text.trimStart_append (l := [c]) (by simpa using hc) s
  rw [List.singleton_append] at h
  rw [Text.strip, Text.trim, h, Text.strip, Text.trim]

theorem strip_word_append {base rest : Text} (hb : isWord base = true)
    (hlast : ∀ c ∈ rest.getLast?, Text.isBlank c = false) : Text.strip (base ++ rest) = base ++ rest := by
  apply Text.trim_of_ends
  · obtain ⟨c, base, rfl⟩ := List.exists_cons_of_ne_nil (ne_nil_of_isWord hb)
    simpa using isBlank_of_isWordChar (isWordChar_of_mem hb List.mem_cons_self)
  · intro c hc
    rw [List.getLast?_append] at hc
    cases hr : rest.getLast? with
    | none =>
      rw [hr, Option.none_or] at hc
      exact isBlank_of_isWordChar (isWordChar_of_mem hb (List.mem_of_getLast? hc))
    | some x =>
      rw [hr, Option.some_or] at hc
      exact Option.some.inj hc ▸ hlast x hr

theorem join_comma (t : Text) (ts : List Text) :
    Text.join ", ".toList (t :: ts) = [','].intercalate (t :: ts.map (' ' :: ·)) := by
  have h := Text.join_cons [','] t (ts.map (' ' :: ·))
  rw [List.flatMap_map] at h
  rw [Text.join_cons, ← Text.join, h]
  rfl

theorem splitOn_join (ts : List Text) (hne : ts ≠ []) (hcomma : ∀ t ∈ ts, ',' ∉ t)
    (hstrip : ∀ t ∈ ts, Text.strip t = t) :
    ((Text.join ", ".toList ts).splitOn ',').map Text.strip = ts := by
  obtain ⟨t, ts, rfl⟩ := List.exists_cons_of_ne_nil hne
  -- the space behind a comma belongs to the part after it
  have hc : ∀ l ∈ t :: ts.map (' ' :: ·), ',' ∉ l := by
    simp only [List.mem_cons, List.mem_map]
    rintro l (rfl | ⟨u, hu, rfl⟩)
    · exact hcomma _ List.mem_cons_self
    · simpa using hcomma u (List.mem_cons_of_mem _ hu)
  rw [join_comma, List.splitOn_intercalate ',' hc (List.cons_ne_nil _ _), List.map_cons, List.map_map,
    hstrip t List.mem_cons_self]
  have hmap : ∀ u ∈ ts, (Text.strip ∘ (' ' :: ·)) u = id u := fun u hu => by
    rw [Function.comp_apply, strip_cons (by decide), hstrip u (List.mem_cons_of_mem _ hu), id]
  rw [List.map_congr_left hmap, List.map_id]

namespace TypeText

theorem read_of_isWord {s : Text} (h : isWord s = true) : read s = .ok ⟨s, none, []⟩ := by
  have hb : Text.cut? '(' s = none := Text.cut?_of_not_mem (not_mem_of_isWord h rfl)
  have hs : Text.cut? ' ' s = none := Text.cut?_of_not_mem (not_mem_of_isWord h rfl)
  simp only [read, strip_of_isWord h, hb, hs]

theorem read_spaced {base rest : Text} (hb : isWord base = true) (hopen : '(' ∉ rest)
    (hlast : ∀ c ∈ (' ' :: rest).getLast?, Text.isBlank c = false) :
    read (base ++ ' ' :: rest) = .ok ⟨base, none, Text.lower rest⟩ := by
  have hnone : Text.cut? '(' (base ++ ' ' :: rest) = none := by
    refine Text.cut?_of_not_mem ?_
    simp [not_mem_of_isWord hb (x := '(') rfl, hopen]
  have hspace : ' ' ∉ base := not_mem_of_isWord hb rfl
  simp only [read, strip_word_append hb hlast, hnone, Text.cut?_append hspace]

/-- What stands between the brackets ends at the first closing one. -/
theorem read_cut {base rest parameters attributes : Text} (hb : isWord base = true)
    (hcut : Text.cut? ')' rest = some (parameters, attributes))
    (hlast : ∀ c ∈ ('(' :: rest).getLast?, Text.isBlank c = false) :
    read (base ++ '(' :: rest) = .ok ⟨base, some parameters, Text.lower attributes⟩ := by
  have hopen : '(' ∉ base := not_mem_of_isWord hb rfl
  simp only [read, strip_word_append hb hlast, Text.cut?_append hopen, hcut]

theorem read_bracketed {base parameters rest : Text} (hb : isWord base = true)
    (hp : ')' ∉ parameters) (hr : ∀ c ∈ (')' :: rest).getLast?, Text.isBlank c = false) :
    read (base ++ '(' :: (parameters ++ ')' :: rest)) =
      .ok ⟨base, some parameters, Text.lower rest⟩ := by
  refine read_cut hb (Text.cut?_append hp rest) ?_
  rw [← List.cons_append, List.getLast?_append]
  simpa using hr

theorem readLength?_of_digits {s : Text} (hne : s ≠ []) (hd : ∀ c ∈ s, c.isDigit = true) :
    readLength? s = if Nat.ofDigitChars 10 s 0 < UInt32.size
      then some (UInt32.ofNat (Nat.ofDigitChars 10 s 0)) else none := by
  have hall : s.all Char.isDigit = true := List.all_eq_true.mpr hd
  unfold readLength?
  split
  · simp at hall
  · simp only [hne, hall, ne_eq, not_false_eq_true, and_self, ite_true]

theorem length?_natural (base attributes : Text) (n : Nat) :
    length? ⟨base, some (Text.natural n), attributes⟩ =
      if n < UInt32.size then some (UInt32.ofNat n) else none := by
  have hd : ∀ c ∈ Text.natural n, c.isDigit = true := fun _ hc => Text.isDigit_of_mem_natural hc
  have hs : Text.strip (Text.natural n) = Text.natural n := Text.trim_of_none fun c hc =>
    isBlank_of_isWordChar (isWordChar_of_isDigit (hd c hc))
  have hvalue : Nat.ofDigitChars 10 (Text.natural n) 0 = n := Nat.ofDigitChars_ten_toDigits
  rw [length?, Option.bind_some, hs, readLength?_of_digits (Text.natural_ne_nil n) hd, hvalue]

theorem length?_toNat (base attributes : Text) (n : UInt32) :
    length? ⟨base, some (Text.natural n.toNat), attributes⟩ = some n := by
  rw [length?_natural, if_pos n.toNat_lt_size, UInt32.ofNat_toNat]

theorem strip_literal (d : Dialect) (s : Text) : Text.strip (d.literal s) = d.literal s := by
  have hquote : Text.isBlank '\'' = false := by decide
  apply Text.trim_of_ends
  · simpa [Dialect.literal] using hquote
  · rw [Dialect.literal, List.getLast?_append, List.getLast?_singleton]
    simpa using hquote

theorem trim_literal {d : Dialect} {s : Text} (h : isWord (d.escape s) = true) :
    Text.trim (· == '\'') (d.literal s) = d.escape s := by
  have hmid : ∀ c ∈ d.escape s, (c == '\'') = false := fun c hc => by
    simpa using ne_of_isWordChar (isWordChar_of_mem h hc) rfl
  exact Text.trim_between (l := ['\'']) (by simp) (by simp)
    (fun c hc => hmid c (List.mem_of_mem_head? hc)) fun c hc => hmid c (List.mem_of_mem_getLast? hc)

theorem options_eq {parameters : Text} {ts : List Text} (base attributes : Text)
    (h : (parameters.splitOn ',').map Text.strip = ts) :
    options ⟨base, some parameters, attributes⟩ =
      (ts.map (Text.trim (· == '\''))).filter (!·.isEmpty) := by
  rw [← h, List.map_map]
  rfl

theorem options_join {d : Dialect} {os : List Text} (base attributes : Text) (hne : os ≠ [])
    (hos : ∀ o ∈ os, isWord o = true ∧ d.escape o = o) :
    options ⟨base, some (Text.join ", ".toList (os.map d.literal)), attributes⟩ = os := by
  have hsplit := splitOn_join (os.map d.literal) (by simpa using hne)
    (by
      rintro t ht
      obtain ⟨o, ho, rfl⟩ := List.mem_map.mp ht
      simpa [Dialect.literal, (hos o ho).2] using not_mem_of_isWord (hos o ho).1 (x := ',') rfl)
    (by
      rintro t ht
      obtain ⟨o, -, rfl⟩ := List.mem_map.mp ht
      exact strip_literal d o)
  -- what is cut off an option are its quotes, since the word between them has none
  have hread : ∀ o ∈ os, (Text.trim (· == '\'') ∘ d.literal) o = id o := fun o ho => by
    obtain ⟨hword, hescape⟩ := hos o ho
    rw [Function.comp_apply, trim_literal (by rwa [hescape]), hescape, id]
  rw [options_eq _ _ hsplit, List.map_map, List.map_congr_left hread, List.map_id,
    List.filter_eq_self]
  intro o ho
  simpa using ne_nil_of_isWord (hos o ho).1

end TypeText

/-! ## What the catalog holds -/

/-- The letters that the catalog has for a role. -/
def KeyKind.catalogText : Option KeyKind → Text
  | some primary => "PRI".toList
  | some unique => "UNI".toList
  | some index => "MUL".toList
  | none => []

theorem KeyKind.ofCatalog?_catalogText (k : Option KeyKind) : ofCatalog? (catalogText k) = k := by
  cases k with
  | none => rfl
  | some k => cases k <;> rfl

/-- The digits that the integer type for a number of digits is declared with. -/
def integerDigits (digits : Nat) : UInt32 :=
  if digits ≤ 3 then 3 else if digits ≤ 5 then 5 else if digits ≤ 7 then 7
  else if digits ≤ 10 then 10 else 25

namespace Column

/-- The type as it is written in the definition, without the word that counts the column up. -/
def typeText (d : Dialect) (c : Column) : Text :=
  Text.join [' '] ((c.typeWords d).filter (· ≠ "AUTO_INCREMENT".toList))

/-- The row that describes the column after it has been created by its definition. -/
def described (d : Dialect) (c : Column) : CatalogRow where
  name := c.name
  type := c.typeText d
  null := if c.nullWord = "NULL".toList then "YES".toList else "NO".toList
  key := KeyKind.catalogText c.key
  default := c.default
  extra := if c.autoIncrement then "auto_increment".toList else []
  comment := c.comment.getD []

/-- The definition of the column has the name and the type of the row for its first words, and says as
the row does whether the column may be null. Only the word that counts it up may stand between. -/
def ShownBy (d : Dialect) (c : Column) (row : CatalogRow) : Prop :=
  ∃ rest, c.definition d = Text.join [' '] (d.quote row.name :: row.type ::
    (wordIf (c.type = .integer && c.autoIncrement) "AUTO_INCREMENT".toList ++
      (if row.null = "YES".toList then "NULL".toList else "NOT NULL".toList) :: rest))

/-- The number in brackets behind the type. A text that shows none is read as a long one. -/
def shownLength? (c : Column) : Option UInt32 :=
  match c.type with
  | .integer => some (integerDigits c.size)
  | .text => some (if c.size ≤ 255 then UInt32.ofNat c.size else 65535)
  | .year => some 4
  | _ => none

/-- The column as far as its definition shows it. -/
def shown (c : Column) : Column :=
  { c with
    length := c.shownLength?
    nullable := c.nullable && !c.autoIncrement
    unsigned := c.type = .integer && c.unsigned
    zerofill := c.type = .integer && (c.unsigned && c.zerofill)
    comment := c.comment.filter (!·.isEmpty) }

/-! ## The definition shows the same of what is shown -/

theorem size_pos (c : Column) : 0 < c.size := by
  unfold size
  cases h : c.length.filter (0 < ·) with
  | none => cases c.type <;> simp [ColumnType.usualLength]
  | some n =>
    have hn := (Option.filter_eq_some_iff.mp h).2
    simpa using UInt32.lt_iff_toNat_lt.mp (of_decide_eq_true hn)

theorem size_of_length {c : Column} {n : UInt32} (hc : c.length = some n) (hn : 0 < n) :
    c.size = n.toNat := by
  rw [size, hc, Option.filter_some, if_pos (decide_eq_true hn), Option.getD_some]

theorem toNat_ofNat_size {c : Column} (h : c.size ≤ 255) : (UInt32.ofNat c.size).toNat = c.size :=
  UInt32.toNat_ofNat_of_lt' (Nat.lt_of_le_of_lt h (by decide))

theorem integerType_cases (n : Nat) :
    (integerType n = "TINYINT(3)".toList ∧ integerDigits n = 3) ∨
    (integerType n = "SMALLINT(5)".toList ∧ integerDigits n = 5) ∨
    (integerType n = "MEDIUMINT(7)".toList ∧ integerDigits n = 7) ∨
    (integerType n = "INT(10)".toList ∧ integerDigits n = 10) ∨
    (integerType n = "BIGINT(25)".toList ∧ integerDigits n = 25) := by
  unfold integerType integerDigits
  by_cases h3 : n ≤ 3
  · simp [h3]
  by_cases h5 : n ≤ 5
  · simp [h3, h5]
  by_cases h7 : n ≤ 7
  · simp [h3, h5, h7]
  by_cases h10 : n ≤ 10
  · simp [h3, h5, h7, h10]
  · simp [h3, h5, h7, h10]

theorem integerType_integerDigits (n : Nat) :
    0 < integerDigits n ∧ integerType (integerDigits n).toNat = integerType n := by
  obtain ⟨ht, hd⟩ | ⟨ht, hd⟩ | ⟨ht, hd⟩ | ⟨ht, hd⟩ | ⟨ht, hd⟩ := integerType_cases n <;>
    rw [ht, hd] <;> decide

theorem integerType_eq (n : Nat) : ∃ base, isWord base = true ∧
    integerType n = base ++ '(' :: (Text.natural (integerDigits n).toNat ++ [')']) ∧
    ∀ ps as, TypeText.column ⟨base, ps, as⟩ = .ok (.integer, TypeText.length? ⟨base, ps, as⟩) := by
  obtain ⟨ht, hd⟩ | ⟨ht, hd⟩ | ⟨ht, hd⟩ | ⟨ht, hd⟩ | ⟨ht, hd⟩ := integerType_cases n <;> rw [ht, hd]
  · exact ⟨"TINYINT".toList, rfl, rfl, fun _ _ => rfl⟩
  · exact ⟨"SMALLINT".toList, rfl, rfl, fun _ _ => rfl⟩
  · exact ⟨"MEDIUMINT".toList, rfl, rfl, fun _ _ => rfl⟩
  · exact ⟨"INT".toList, rfl, rfl, fun _ _ => rfl⟩
  · exact ⟨"BIGINT".toList, rfl, rfl, fun _ _ => rfl⟩

theorem size_shown_of_integer {c : Column} (h : c.type = .integer) :
    c.shown.size = (integerDigits c.size).toNat :=
  size_of_length (by simp [shown, shownLength?, h]) (integerType_integerDigits c.size).1

theorem size_shown_of_text {c : Column} (h : c.type = .text) :
    c.shown.size = if c.size ≤ 255 then c.size else 65535 := by
  by_cases hs : c.size ≤ 255
  · have hn := toNat_ofNat_size hs
    have hpos : 0 < UInt32.ofNat c.size := UInt32.lt_iff_toNat_lt.mpr (by rw [hn]; exact c.size_pos)
    have hl : c.shown.length = some (UInt32.ofNat c.size) := by simp [shown, shownLength?, h, hs]
    rw [size_of_length hl hpos, hn, if_pos hs]
  · have hl : c.shown.length = some 65535 := by simp [shown, shownLength?, h, hs]
    rw [size_of_length hl (by decide), if_neg hs]
    rfl

theorem typeWords_shown (d : Dialect) (c : Column) : c.shown.typeWords d = c.typeWords d := by
  have htype : c.shown.type = c.type := rfl
  unfold typeWords
  rw [htype]
  cases h : c.type with
  | integer =>
    have hsize : integerType c.shown.size = integerType c.size := by
      rw [size_shown_of_integer h, (integerType_integerDigits c.size).2]
    simp only [hsize]
    simp [shown, h]
  | text =>
    simp only [size_shown_of_text h]
    by_cases hs : c.size ≤ 255
    · simp [hs]
    · simp [hs]
  | enum | dateTime | timestamp | date | time | float | blob | year => rfl

theorem definition_shown (d : Dialect) (c : Column) : c.shown.definition d = c.definition d := by
  have hnull : c.shown.nullWord = c.nullWord := by
    unfold nullWord shown
    cases c.nullable <;> cases c.autoIncrement <;> rfl
  have hdefault : c.shown.writtenDefault? = c.writtenDefault? := rfl
  have hcomment : c.shown.comment.filter (!·.isEmpty) = c.comment.filter (!·.isEmpty) := by
    simp only [shown, Option.filter_filter, Bool.and_self]
  unfold definition
  rw [typeWords_shown, hnull, hdefault, hcomment]
  rfl

/-! ## The rows are read as what is shown -/

theorem bracketed_ne (base rest : Text) : base ++ '(' :: rest ≠ "AUTO_INCREMENT".toList := by
  intro e
  have hm : '(' ∈ "AUTO_INCREMENT".toList := by rw [← e]; simp
  exact absurd hm (by decide)

theorem integerType_ne (n : Nat) : integerType n ≠ "AUTO_INCREMENT".toList := by
  obtain ⟨base, -, ht, -⟩ := integerType_eq n
  rw [ht]
  exact bracketed_ne base _

theorem filter_cons_of_ne {w : Text} (ws : List Text) (h : w ≠ "AUTO_INCREMENT".toList) :
    (w :: ws).filter (· ≠ "AUTO_INCREMENT".toList) = w :: ws.filter (· ≠ "AUTO_INCREMENT".toList) :=
  List.filter_cons_of_pos (p := (· ≠ "AUTO_INCREMENT".toList)) (decide_eq_true h)

theorem exists_typeWords (d : Dialect) (c : Column) : ∃ w ws,
    (c.typeWords d).filter (· ≠ "AUTO_INCREMENT".toList) = w :: ws ∧
    c.typeWords d =
      w :: ws ++ wordIf (c.type = .integer && c.autoIncrement) "AUTO_INCREMENT".toList := by
  unfold typeWords
  cases c.type with
  | integer =>
    refine ⟨integerType c.size, wordIf c.unsigned "UNSIGNED".toList ++
      wordIf (c.unsigned && c.zerofill) "ZEROFILL".toList, ?_, rfl⟩
    refine (filter_cons_of_ne _ (integerType_ne c.size)).trans (congrArg (integerType c.size :: ·) ?_)
    cases c.unsigned <;> cases c.zerofill <;> cases c.autoIncrement <;> rfl
  | text =>
    dsimp only
    split
    · exact ⟨_, [], filter_cons_of_ne [] (bracketed_ne "VARCHAR".toList _), rfl⟩
    · exact ⟨_, [], rfl, rfl⟩
  | enum os => exact ⟨_, [], filter_cons_of_ne [] (bracketed_ne "ENUM".toList _), rfl⟩
  | dateTime | timestamp | date | time | float | blob | year => exact ⟨_, [], rfl, rfl⟩

/-- **A description tells what the definition says.** -/
theorem shownBy_described (d : Dialect) (c : Column) : c.ShownBy d (c.described d) := by
  obtain ⟨w, ws, hfilter, hwords⟩ := c.exists_typeWords d
  have hnull : (if (c.described d).null = "YES".toList then "NULL".toList else "NOT NULL".toList) =
      c.nullWord := by
    unfold described nullWord
    cases c.nullable && !c.autoIncrement <;> rfl
  have htype : (c.described d).type = Text.join [' '] (w :: ws) :=
    congrArg (Text.join [' ']) hfilter
  refine ⟨literalWord d "DEFAULT".toList c.writtenDefault? ++
    literalWord d "COMMENT".toList (c.comment.filter (!·.isEmpty)), ?_⟩
  rw [hnull, htype, definition, hwords]
  simp only [Text.join_cons, List.cons_append, List.flatMap_append, List.flatMap_cons,
    List.append_assoc, List.nil_append]
  rfl

/-- What is read off the text of a type: the type, its length, and the flags of an integer. -/
def Reads (c : Column) (s : Text) : Prop :=
  ∃ t, TypeText.read s = .ok t ∧ t.column = .ok (c.type, c.length) ∧
    Text.occurs "unsigned".toList t.attributes = c.unsigned ∧
    Text.occurs "zerofill".toList t.attributes = c.zerofill

theorem typeText_cons {d : Dialect} {c : Column} {w : Text} {ws : List Text}
    (h : c.typeWords d = w :: ws) (hw : w ≠ "AUTO_INCREMENT".toList) :
    c.typeText d = w ++ (ws.filter (· ≠ "AUTO_INCREMENT".toList)).flatMap ([' '] ++ ·) := by
  rw [typeText, h, filter_cons_of_ne ws hw, Text.join_cons]

theorem typeText_of_integer {d : Dialect} {c : Column} (h : c.type = .integer) :
    c.typeText d = integerType c.size ++ (wordIf c.unsigned "UNSIGNED".toList ++
      wordIf (c.unsigned && c.zerofill) "ZEROFILL".toList).flatMap ([' '] ++ ·) := by
  have hwords : c.typeWords d = integerType c.size :: (wordIf c.unsigned "UNSIGNED".toList ++
      wordIf (c.unsigned && c.zerofill) "ZEROFILL".toList ++
      wordIf c.autoIncrement "AUTO_INCREMENT".toList) := by
    simp [typeWords, h]
  rw [typeText_cons hwords (integerType_ne c.size)]
  refine congrArg (integerType c.size ++ List.flatMap ([' '] ++ ·) ·) ?_
  cases c.unsigned <;> cases c.zerofill <;> cases c.autoIncrement <;> rfl

theorem reads_integer {d : Dialect} {c : Column} (h : c.type = .integer) :
    c.shown.Reads (c.typeText d) := by
  obtain ⟨base, hb, ht, hcolumn⟩ := integerType_eq c.size
  rw [Reads, typeText_of_integer h, ht, List.append_assoc, List.cons_append, List.append_assoc,
    List.singleton_append]
  refine ⟨_, TypeText.read_bracketed hb (Text.not_mem_natural rfl _) ?_, ?_, ?_, ?_⟩
  · cases c.unsigned <;> cases c.zerofill <;> simp [wordIf] <;> decide
  · rw [hcolumn, TypeText.length?_toNat]
    simp [shown, shownLength?, h]
  · simp only [shown, h]
    cases c.unsigned <;> cases c.zerofill <;> decide
  · simp only [shown, h]
    cases c.unsigned <;> cases c.zerofill <;> decide

-- Only the type of an integer has flags. The others are one word, with brackets or not.

theorem reads_of_single {d : Dialect} {c : Column} {w : Text} {t : TypeText} (h : c.type ≠ .integer)
    (hwords : c.typeWords d = [w]) (hw : w ≠ "AUTO_INCREMENT".toList)
    (hread : TypeText.read w = .ok t) (hattributes : t.attributes = [])
    (hcolumn : t.column = .ok (c.type, c.shownLength?)) : c.shown.Reads (c.typeText d) := by
  rw [typeText_cons hwords hw, List.filter_nil, List.flatMap_nil, List.append_nil]
  refine ⟨t, hread, hcolumn, ?_, ?_⟩
  · simp [shown, h, hattributes, Text.occurs]
  · simp [shown, h, hattributes, Text.occurs]

theorem reads_word {d : Dialect} {c : Column} {w : Text} (h : c.type ≠ .integer)
    (hwords : c.typeWords d = [w]) (hw : isWord w = true ∧ w ≠ "AUTO_INCREMENT".toList)
    (hcolumn : TypeText.column ⟨w, none, []⟩ = .ok (c.type, c.shownLength?)) :
    c.shown.Reads (c.typeText d) :=
  reads_of_single h hwords hw.2 (TypeText.read_of_isWord hw.1) rfl hcolumn

theorem reads_bracketed {d : Dialect} {c : Column} (base parameters : Text) (h : c.type ≠ .integer)
    (hwords : c.typeWords d = [base ++ '(' :: (parameters ++ [')'])]) (hb : isWord base = true)
    (hp : ')' ∉ parameters)
    (hcolumn : TypeText.column ⟨base, some parameters, []⟩ = .ok (c.type, c.shownLength?)) :
    c.shown.Reads (c.typeText d) := by
  have hclose : Text.isBlank ')' = false := by decide
  exact reads_of_single h hwords (bracketed_ne base _)
    (TypeText.read_bracketed hb hp (by simpa using hclose)) rfl hcolumn

theorem reads_text {d : Dialect} {c : Column} (h : c.type = .text) :
    c.shown.Reads (c.typeText d) := by
  have hn : c.type ≠ .integer := by simp [h]
  by_cases hs : c.size ≤ 255
  · have hcolumn : ∀ ps as, TypeText.column ⟨"VARCHAR".toList, ps, as⟩ =
        .ok (.text, TypeText.length? ⟨"VARCHAR".toList, ps, as⟩) := fun _ _ => rfl
    refine reads_bracketed "VARCHAR".toList (Text.natural (UInt32.ofNat c.size).toNat) hn ?_ rfl
      (Text.not_mem_natural rfl _) ?_
    · rw [toNat_ofNat_size hs]
      simp [typeWords, h, hs]
    · rw [hcolumn, TypeText.length?_toNat, shownLength?, h]
      simp only [hs, ite_true]
  · refine reads_word (w := "TEXT".toList) hn (by simp [typeWords, h, hs]) (by decide) ?_
    simp only [shownLength?, h, hs]
    rfl

theorem reads_enum {d : Dialect} {c : Column} {os : List Text} (h : c.type = .enum os) (hne : os ≠ [])
    (hos : ∀ o ∈ os, isWord o = true ∧ d.escape o = o) : c.shown.Reads (c.typeText d) := by
  have hp : ')' ∉ Text.join ", ".toList (os.map d.literal) := by
    refine Text.not_mem_join (by decide) fun t ht => ?_
    obtain ⟨o, ho, rfl⟩ := List.mem_map.mp ht
    simpa [Dialect.literal, (hos o ho).2] using not_mem_of_isWord (hos o ho).1 (x := ')') rfl
  have hcolumn : ∀ ps as, TypeText.column ⟨"ENUM".toList, ps, as⟩ =
      .ok (.enum (TypeText.options ⟨"ENUM".toList, ps, as⟩), none) := fun _ _ => rfl
  refine reads_bracketed "ENUM".toList _ (by simp [h]) (by simp [typeWords, h]) rfl hp ?_
  rw [hcolumn, TypeText.options_join _ _ hne hos, shownLength?, h]

/-- The options of an enumeration, if it is one, are words that the dialect writes as they are. -/
def HasPlainOptions (d : Dialect) (c : Column) : Prop :=
  ∀ os, c.type = .enum os → os ≠ [] ∧ ∀ o ∈ os, isWord o = true ∧ d.escape o = o

theorem reads_typeText {d : Dialect} {c : Column} (hp : c.HasPlainOptions d) :
    c.shown.Reads (c.typeText d) := by
  cases h : c.type with
  | integer => exact reads_integer h
  | text => exact reads_text h
  | enum os => exact reads_enum h (hp os h).1 (hp os h).2
  | year =>
    exact reads_bracketed "YEAR".toList ['4'] (by simp [h])
      (by rw [typeWords, h]; rfl) rfl (by decide) (by rw [shownLength?, h]; rfl)
  | dateTime | timestamp | date | time | float | blob =>
    -- no length is shown, and each of these names is known to the catalog
    exact reads_word (by simp [h]) (by rw [typeWords, h]) (by decide) (by rw [shownLength?, h]; rfl)

/-- **A description is read as what is shown of the column.** -/
theorem column_described {d : Dialect} {c : Column} (hp : c.HasPlainOptions d) :
    (c.described d).column = .ok c.shown := by
  obtain ⟨t, hread, hcolumn, hunsigned, hzerofill⟩ := reads_typeText hp
  have hnull : Text.sameLetters (c.described d).null "yes".toList = c.shown.nullable := by
    by_cases hb : (c.nullable && !c.autoIncrement) = true
    · simp only [described, nullWord, shown, hb]; decide
    · simp only [described, nullWord, shown, hb]; decide
  have hextra : Text.occurs "auto_increment".toList (c.described d).extra = c.autoIncrement := by
    simp only [described]
    cases c.autoIncrement <;> decide
  have hcomment : (if (c.described d).comment.isEmpty then none else some (c.described d).comment) =
      c.shown.comment := by
    unfold described shown
    cases c.comment with
    | none => rfl
    | some s => cases s <;> rfl
  have hkey : KeyKind.ofCatalog? (c.described d).key = c.key := KeyKind.ofCatalog?_catalogText c.key
  have htype : TypeText.read (c.described d).type = .ok t := hread
  -- the fields that are copied need no argument
  simp only [CatalogRow.column, htype, hcolumn, hunsigned, hzerofill, hnull, hextra, hcomment, hkey,
    bind, Except.bind, pure, Except.pure]
  rfl

end Column

/-! ## Tables -/

theorem mapM_described {d : Dialect} : ∀ {cs : List Column}, (∀ c ∈ cs, c.HasPlainOptions d) →
    (cs.map (·.described d)).mapM CatalogRow.column = .ok (cs.map Column.shown)
  | [], _ => rfl
  | c :: cs, h => by
    rw [List.map_cons, List.mapM_cons, Column.column_described (h c List.mem_cons_self),
      mapM_described fun c' hc => h c' (List.mem_cons_of_mem c hc)]
    rfl

namespace Table

theorem faultAfter?_shown (primary? : Option Text) (cs : List Column) :
    faultAfter? primary? (cs.map Column.shown) = faultAfter? primary? cs := by
  induction cs generalizing primary? with
  | nil => rfl
  | cons c cs ih =>
    have hf : c.shown.fault? = c.fault? := rfl
    have hk : c.shown.key = c.key := rfl
    have hn : c.shown.name = c.name := rfl
    simp only [List.map_cons, faultAfter?, hf, hk, hn, ih]

theorem fault?_shown (cs : List Column) : fault? (cs.map Column.shown) = fault? cs := by
  rw [fault?, fault?, faultAfter?_shown, List.isEmpty_map]

theorem keyed_shown (d : Dialect) (cs : List Column) (role : KeyKind) :
    keyed d (cs.map Column.shown) role = keyed d cs role := by
  rw [keyed, keyed, List.filter_map, List.map_map]
  rfl

theorem create_shown (d : Dialect) (table : Text) (cs : List Column) (o : TableOptions) :
    create d table (cs.map Column.shown) o = create d table cs o := by
  have hlines : (cs.map Column.shown).map (·.definition d) = cs.map (·.definition d) := by
    rw [List.map_map]
    exact List.map_congr_left fun c _ => c.definition_shown d
  have hkeys : keyLines d (cs.map Column.shown) = keyLines d cs := by
    simp only [keyLines, keyed_shown]
  have hbody : body d (cs.map Column.shown) = body d cs := by
    unfold body
    rw [hlines, hkeys]
  unfold create
  rw [hbody]

end Table

theorem Dialect.plan_shown (d : Dialect) (table : Text) (cs : List Column) (o : TableOptions) :
    d.plan (.create table (cs.map Column.shown) o) = d.plan (.create table cs o) := by
  unfold plan
  simp only [Table.fault?_shown, Table.create_shown]

/-- **A table that is created again from its description is the same.** The rows tell what the
definitions of the columns say. Every row is read, and the columns that come out of the rows give the
same statement or the same error. -/
theorem Table.create_described (f : Flavor) (cleans : Bool) (begun : Nat) (table : Text)
    (columns : List Column) (o : TableOptions)
    (h : ∀ c ∈ columns, ∀ os, c.type = .enum os → os ≠ [] ∧ ∀ w ∈ os, isWord w = true) :
    (∀ c ∈ columns, c.ShownBy ⟨f, f.escape, cleans⟩ (c.described ⟨f, f.escape, cleans⟩)) ∧
    ∃ again, (columns.map (·.described ⟨f, f.escape, cleans⟩)).mapM CatalogRow.column = .ok again ∧
      Dialect.compile ⟨f, f.escape, cleans⟩ begun (.create table again o) =
        Dialect.compile ⟨f, f.escape, cleans⟩ begun (.create table columns o) := by
  have hplain : ∀ c ∈ columns, c.HasPlainOptions ⟨f, f.escape, cleans⟩ := by
    intro c hc os ho
    obtain ⟨hne, hword⟩ := h c hc os ho
    exact ⟨hne, fun w hw =>
      ⟨hword w hw, escape_of_isWordChar f fun _ hx => isWordChar_of_mem (hword w hw) hx⟩⟩
  refine ⟨fun c _ => c.shownBy_described _, columns.map Column.shown, mapM_described hplain, ?_⟩
  rw [Dialect.compile, Dialect.compile, Dialect.plan_shown]

/-- Lengths, flags, a comment and a default that the definitions do not show as they are held. -/
theorem Table.create_described_orders :
    let columns : List Column :=
      [⟨"id".toList, .integer, some 0, true, true, true, true, some "5".toList, some [], some .primary⟩,
        ⟨"state".toList, .enum ["new".toList, "paid_1".toList], some 7, false, true, true, false,
          some "paid_1".toList, some "it's".toList, some .index⟩,
        ⟨"note".toList, .text, some 300, true, true, false, false, none, none, none⟩]
    (∀ c ∈ columns, ∀ os, c.type = .enum os → os ≠ [] ∧ ∀ w ∈ os, isWord w = true) ∧
      ∃ again, (columns.map (·.described ⟨.mysql, Flavor.mysql.escape, true⟩)).mapM CatalogRow.column =
          .ok again ∧
        Dialect.compile ⟨.mysql, Flavor.mysql.escape, true⟩ 0 (.create "orders".toList again default) =
          Dialect.compile ⟨.mysql, Flavor.mysql.escape, true⟩ 0
            (.create "orders".toList columns default) ∧
        ∃ st, Dialect.compile ⟨.mysql, Flavor.mysql.escape, true⟩ 0
            (.create "orders".toList again default) = (.ok st, 1) ∧
          st.sql = "CREATE TABLE IF NOT EXISTS `orders` (\n".toList ++
            "\t`id` INT(10) UNSIGNED ZEROFILL AUTO_INCREMENT NOT NULL,\n".toList ++
            "\t`state` ENUM('new', 'paid_1') NOT NULL DEFAULT 'paid_1' COMMENT 'it\\'s',\n".toList ++
            "\t`note` TEXT NULL,\n\tPRIMARY KEY (`id`),\n\tKEY `state` (`state`)\n".toList ++
            ") ENGINE=InnoDB DEFAULT CHARSET=utf8 COLLATE=utf8_general_ci COMMENT='' ".toList ++
            "AUTO_INCREMENT=1;".toList := by
  intro columns
  have h : ∀ c ∈ columns, ∀ os, c.type = .enum os → os ≠ [] ∧ ∀ w ∈ os, isWord w = true := by
    simp only [columns, List.mem_cons, List.not_mem_nil, or_false]
    rintro c (rfl | rfl | rfl) os ho
    · cases ho
    · cases ho
      exact ⟨List.cons_ne_nil _ _, by decide⟩
    · cases ho
  obtain ⟨-, again, hrows, hsame⟩ :=
    Table.create_described .mysql true 0 "orders".toList columns default h
  have hrun : Dialect.compile ⟨.mysql, Flavor.mysql.escape, true⟩ 0
      (.create "orders".toList columns default) = (.ok _, 1) := rfl
  exact ⟨h, again, hrows, hsame, _, hsame.trans hrun, by decide +kernel⟩

end SqlForge
