import SqlForge.Proofs.Catalog
import SqlForge.Proofs.Definitions
import Mathlib.Tactic.SplitIfs

/-!
# Types as a server prints them

The rows of the catalog need not come from a table that was created here, and what the server prints
is more than what is read. The options of an enumeration are cut at every comma, wherever it stands,
and the quotes inside an option are not undone. Of an integer type only the number in brackets is kept,
and the type is chosen again by it.
-/

namespace SqlForge

theorem CatalogRow.column_of_read {row : CatalogRow} {t : TypeText} {type : ColumnType}
    {length : Option UInt32} (hread : TypeText.read row.type = .ok t)
    (hcolumn : t.column = .ok (type, length)) :
    ∃ c, row.column = .ok c ∧ c.name = row.name ∧ c.type = type ∧ c.length = length := by
  unfold CatalogRow.column
  rw [hread]
  simp only [bind, Except.bind, hcolumn, pure, Except.pure]
  exact ⟨_, rfl, rfl, rfl, rfl⟩

/-! ## Enumerations -/

/-- Every quote twice, as it is written inside an option. -/
def doubled (s : Text) : Text := s.flatMap fun c => if c = '\'' then ['\'', '\''] else [c]

def serverOption (o : Text) : Text := '\'' :: doubled o ++ ['\'']

def serverOptions (os : List Text) : Text := Text.join [','] (os.map serverOption)

/-- An enumeration of these options, as the server prints it. -/
def serverEnum (os : List Text) : Text := "enum".toList ++ '(' :: (serverOptions os ++ [')'])

theorem length_doubled (s : Text) : (doubled s).length = s.length + s.count '\'' := by
  induction s with
  | nil => rfl
  | cons c s ih =>
    have hcons : doubled (c :: s) = (if c = '\'' then ['\'', '\''] else [c]) ++ doubled s :=
      List.flatMap_cons
    rw [hcons, List.length_append, ih, List.length_cons]
    by_cases hc : c = '\''
    · rw [if_pos hc, hc, List.count_cons_self, List.length_cons, List.length_singleton]
      omega
    · rw [if_neg hc, List.count_cons_of_ne hc, List.length_singleton]
      omega

theorem mem_doubled {c : Char} {s : Text} : c ∈ doubled s ↔ c ∈ s := by
  have hmem : ∀ x : Char, c ∈ (if x = '\'' then ['\'', '\''] else [x]) ↔ c = x := by
    intro x
    by_cases hx : x = '\''
    · simp [hx]
    · simp [hx]
  simp only [doubled, List.mem_flatMap, hmem, exists_eq_right']

theorem doubled_of_not_mem : ∀ {s : Text}, '\'' ∉ s → doubled s = s
  | [], _ => rfl
  | c :: s, h => by
    have hc : c ≠ '\'' := fun e => h (by simp [e])
    have ih := doubled_of_not_mem fun hs => h (List.mem_cons_of_mem c hs)
    rw [doubled] at ih ⊢
    rw [List.flatMap_cons, ih, if_neg hc, List.singleton_append]

theorem not_mem_of_doubled {s : Text} (h : doubled s = s) : '\'' ∉ s := by
  have hl := length_doubled s
  rw [h] at hl
  exact List.count_eq_zero.mp (by omega)

theorem trim_doubled (s : Text) :
    Text.trim (· == '\'') (doubled s) = doubled (Text.trim (· == '\'') s) := by
  apply Text.trim_flatMap
  · intro c _ hc x hx
    rw [if_pos (beq_iff_eq.mp hc)] at hx
    simpa using hx
  · intro c _ hc
    rw [if_neg (by simpa using hc)]
    simpa using hc

/-- Of an option its outer quotes are lost and its inner ones stay doubled. -/
theorem trim_serverOption (o : Text) :
    Text.trim (· == '\'') (serverOption o) = doubled (Text.trim (· == '\'') o) := by
  rw [← trim_doubled]
  exact Text.trim_around (l := ['\'']) (r := ['\'']) (by simp) (by simp) (doubled o)

theorem trim_serverOption_eq_iff {o : Text} :
    Text.trim (· == '\'') (serverOption o) = o ↔ '\'' ∉ o := by
  rw [trim_serverOption]
  constructor
  · intro h
    have htrim := congrArg (Text.trim (· == '\'')) h
    rw [trim_doubled, Text.trim_trim, h] at htrim
    rw [← htrim] at h
    exact not_mem_of_doubled h
  · intro h
    rw [Text.trim_of_none fun c hc => by simpa using fun e : c = '\'' => h (e ▸ hc),
      doubled_of_not_mem h]

theorem strip_serverOption (o : Text) : Text.strip (serverOption o) = serverOption o := by
  have hquote : Text.isBlank '\'' = false := by decide
  apply Text.trim_of_ends
  · simpa [serverOption] using hquote
  · rw [serverOption, List.getLast?_append, List.getLast?_singleton]
    simpa using hquote

theorem mem_serverOptions {c : Char} {os : List Text} (h : c ∈ serverOptions os) :
    c = ',' ∨ c = '\'' ∨ ∃ o ∈ os, c ∈ o := by
  rcases Text.mem_join h with h | ⟨t, ht, h⟩
  · exact .inl (List.mem_singleton.mp h)
  · obtain ⟨o, ho, rfl⟩ := List.mem_map.mp ht
    simp only [serverOption, List.mem_append, List.mem_cons, List.not_mem_nil, or_false] at h
    rcases h with (h | h) | h
    · exact .inr (.inl h)
    · exact .inr (.inr ⟨o, ho, mem_doubled.mp h⟩)
    · exact .inr (.inl h)

namespace TypeText

/-- What is read ends at the first closing bracket, be it inside an option. -/
theorem read_serverEnum (os : List Text) : ∃ parameters attributes,
    read (serverEnum os) = .ok ⟨"enum".toList, some parameters, attributes⟩ ∧ ')' ∉ parameters ∧
      (')' ∉ serverOptions os → parameters = serverOptions os) := by
  cases hcut : Text.cut? ')' (serverOptions os ++ [')']) with
  | none => exact absurd (by simp) (Text.not_mem_of_cut?_eq_none hcut)
  | some ab =>
    obtain ⟨parameters, attributes⟩ := ab
    have hclose : Text.isBlank ')' = false := by decide
    have hlast : ∀ c ∈ ('(' :: (serverOptions os ++ [')'])).getLast?, Text.isBlank c = false := by
      rw [← List.cons_append, List.getLast?_append]
      simpa using hclose
    refine ⟨parameters, Text.lower attributes, read_cut rfl hcut hlast, Text.not_mem_of_cut? hcut,
      fun h => ?_⟩
    rw [Text.cut?_append h] at hcut
    cases hcut
    rfl

/-- No option that is read is empty or holds a comma, or anything that the brackets do not hold. -/
theorem of_mem_options {base parameters attributes o : Text}
    (h : o ∈ options ⟨base, some parameters, attributes⟩) :
    o ≠ [] ∧ ',' ∉ o ∧ ∀ c ∈ o, c ∈ parameters := by
  rw [options, Option.getD_some, List.mem_filter, List.mem_map] at h
  obtain ⟨⟨piece, hpiece, rfl⟩, hne⟩ := h
  have hsub : ∀ c ∈ Text.trim (· == '\'') (Text.strip piece), c ∈ piece := fun c hc =>
    Text.mem_of_mem_trim (Text.mem_of_mem_trim hc)
  refine ⟨by simpa using hne, fun hc => Text.not_mem_of_mem_splitOn hpiece (hsub _ hc), fun c hc => ?_⟩
  exact Text.mem_of_mem_splitOn hpiece (hsub c hc)

theorem options_serverOptions {os : List Text} (base attributes : Text) (hne : os ≠ [])
    (hcomma : ∀ o ∈ os, ',' ∉ o) :
    options ⟨base, some (serverOptions os), attributes⟩ =
      (os.map fun o => Text.trim (· == '\'') (serverOption o)).filter (!·.isEmpty) := by
  have hpieces : ∀ t ∈ os.map serverOption, ',' ∉ t := by
    simp only [List.mem_map]
    rintro t ⟨o, ho, rfl⟩
    simpa [serverOption, mem_doubled] using hcomma o ho
  have hsplit : ((serverOptions os).splitOn ',').map Text.strip = os.map serverOption := by
    rw [serverOptions, Text.join, List.splitOn_intercalate ',' hpieces (by simpa using hne),
      List.map_map]
    exact List.map_congr_left fun o _ => strip_serverOption o
  rw [options_eq _ _ hsplit, List.map_map]
  rfl

/-- As many options as before means that none has been dropped. -/
theorem options_serverOptions_eq_iff {os : List Text} (base attributes : Text) (hne : os ≠ [])
    (hcomma : ∀ o ∈ os, ',' ∉ o) :
    options ⟨base, some (serverOptions os), attributes⟩ = os ↔ ∀ o ∈ os, o ≠ [] ∧ '\'' ∉ o := by
  rw [options_serverOptions base attributes hne hcomma]
  constructor
  · intro he o ho
    have hfull := List.length_filter_eq_length_iff.mp (by rw [he, List.length_map])
    rw [List.filter_eq_self.mpr hfull] at he
    have hid : os.map (fun o => Text.trim (· == '\'') (serverOption o)) = os.map id := by
      rw [he, List.map_id]
    rw [he] at hfull
    exact ⟨by simpa using hfull o ho, trim_serverOption_eq_iff.mp (List.map_inj_left.mp hid o ho)⟩
  · intro h
    have hid : ∀ o ∈ os, Text.trim (· == '\'') (serverOption o) = id o := fun o ho =>
      trim_serverOption_eq_iff.mpr (h o ho).2
    rw [List.map_congr_left hid, List.map_id, List.filter_eq_self]
    intro o ho
    simpa using (h o ho).1

theorem options_eq_iff {os : List Text} {parameters : Text} (base attributes : Text)
    (hclose : ')' ∉ parameters)
    (hall : ')' ∉ serverOptions os → parameters = serverOptions os) :
    options ⟨base, some parameters, attributes⟩ = os ↔
      ∀ o ∈ os, o ≠ [] ∧ '\'' ∉ o ∧ ',' ∉ o ∧ ')' ∉ o := by
  have hbody : (∀ o ∈ os, ')' ∉ o) → parameters = serverOptions os := by
    intro h
    refine hall fun hm => ?_
    rcases mem_serverOptions hm with e | e | ⟨o, ho, e⟩
    · exact absurd e (by decide)
    · exact absurd e (by decide)
    · exact h o ho e
  constructor
  · intro he o ho
    have hmem : ∀ o ∈ os, o ∈ options ⟨base, some parameters, attributes⟩ := fun o ho => by rwa [he]
    have hcomma : ∀ o ∈ os, ',' ∉ o := fun o ho => (of_mem_options (hmem o ho)).2.1
    have hbracket : ∀ o ∈ os, ')' ∉ o := fun o ho hm =>
      hclose ((of_mem_options (hmem o ho)).2.2 _ hm)
    rw [hbody hbracket, options_serverOptions_eq_iff _ _ (List.ne_nil_of_mem ho) hcomma] at he
    exact ⟨(he o ho).1, (he o ho).2, hcomma o ho, hbracket o ho⟩
  · intro h
    rw [hbody fun o ho => (h o ho).2.2.2]
    by_cases hne : os = []
    · rw [hne]
      rfl
    · refine (options_serverOptions_eq_iff _ _ hne fun o ho => (h o ho).2.2.1).mpr fun o ho => ?_
      exact ⟨(h o ho).1, (h o ho).2.1⟩

end TypeText

/-- **An enumeration is read back if its options are plain.** What the server prints for these options
is always read as an enumeration, and it has the same options exactly if none of them is empty or
holds a quote, a comma or a closing bracket. -/
theorem CatalogRow.enum_options (row : CatalogRow) (os : List Text) :
    ∃ c read, ({ row with type := serverEnum os } : CatalogRow).column = .ok c ∧
      c.type = .enum read ∧
      (read = os ↔ ∀ o ∈ os, o ≠ [] ∧ '\'' ∉ o ∧ ',' ∉ o ∧ ')' ∉ o) := by
  obtain ⟨parameters, attributes, hread, hclose, hall⟩ := TypeText.read_serverEnum os
  have hcolumn : TypeText.column ⟨"enum".toList, some parameters, attributes⟩ =
    .ok (.enum (TypeText.options ⟨"enum".toList, some parameters, attributes⟩), none) := rfl
  have hprinted : TypeText.read ({ row with type := serverEnum os } : CatalogRow).type =
    .ok ⟨"enum".toList, some parameters, attributes⟩ := hread
  obtain ⟨c, hc, -, htype, -⟩ := CatalogRow.column_of_read hprinted hcolumn
  exact ⟨c, _, hc, htype, TypeText.options_eq_iff _ _ hclose hall⟩

/-- A comma in an option makes two of it. -/
theorem CatalogRow.enum_option_cut :
    ∃ c, (⟨"x".toList, serverEnum ["a,b".toList, "c".toList], "NO".toList, [], none, [], []⟩ :
        CatalogRow).column = .ok c ∧
      c.type = .enum ["a".toList, "b".toList, "c".toList] :=
  ⟨_, rfl, by decide⟩

/-! ## Integers -/

/-- The integer types of a server. -/
inductive IntegerKind where
  | tiny
  | small
  | medium
  | regular
  | big
  deriving DecidableEq, Repr

namespace IntegerKind

def keyword : IntegerKind → Text
  | tiny => "TINYINT".toList
  | small => "SMALLINT".toList
  | medium => "MEDIUMINT".toList
  | regular => "INT".toList
  | big => "BIGINT".toList

/-- The bytes that a value takes up. -/
def bytes : IntegerKind → Nat
  | tiny => 1
  | small => 2
  | medium => 3
  | regular => 4
  | big => 8

/-- The fewest digits for which no smaller type is chosen. -/
def leastDigits : IntegerKind → Nat
  | tiny => 0
  | small => 4
  | medium => 6
  | regular => 8
  | big => 11

def ofDigits (n : Nat) : IntegerKind :=
  if n ≤ 3 then tiny else if n ≤ 5 then small else if n ≤ 7 then medium
  else if n ≤ 10 then regular else big

theorem integerType_eq (n : Nat) : ∃ rest, integerType n = (ofDigits n).keyword ++ '(' :: rest := by
  unfold integerType ofDigits
  split_ifs
  · exact ⟨"3)".toList, rfl⟩
  · exact ⟨"5)".toList, rfl⟩
  · exact ⟨"7)".toList, rfl⟩
  · exact ⟨"10)".toList, rfl⟩
  · exact ⟨"25)".toList, rfl⟩

theorem bytes_le_iff (kind : IntegerKind) (n : Nat) :
    kind.bytes ≤ (ofDigits n).bytes ↔ kind.leastDigits ≤ n := by
  unfold ofDigits
  cases kind <;> split_ifs <;> simp only [bytes, leastDigits] <;> omega

theorem isWordChar_of_mem_keyword (kind : IntegerKind) :
    ∀ c ∈ Text.lower kind.keyword, isWordChar c = true :=
  List.all_eq_true.mp (by cases kind <;> decide)

theorem keyword_ne_nil (kind : IntegerKind) : kind.keyword ≠ [] := by
  cases kind <;> decide

/-- The width in brackets at which the server displays an integer, if it says one. -/
def widthText : Option Nat → Text
  | some w => '(' :: (Text.natural w ++ [')'])
  | none => []

def flagsText (unsigned zerofill : Bool) : Text :=
  (wordIf unsigned "unsigned".toList ++ wordIf zerofill "zerofill".toList).flatMap ([' '] ++ ·)

/-- An integer type as the server prints it, in lower case. -/
def serverText (kind : IntegerKind) (width : Option Nat) (unsigned zerofill : Bool) : Text :=
  Text.lower kind.keyword ++ (widthText width ++ flagsText unsigned zerofill)

theorem widthText_letterless {c : Char} {width : Option Nat} (h : c ∈ widthText width) :
    c.toLower = c ∧ c.isLower = false := by
  cases width with
  | none => cases h
  | some w =>
    simp only [widthText, List.mem_cons, List.mem_append, List.not_mem_nil, or_false] at h
    rcases h with rfl | h | rfl
    · decide
    · exact Text.toLower_of_isDigit (Text.isDigit_of_mem_natural h)
    · decide

end IntegerKind

/-- The digits that a column read with this width gets. A width that is missing, zero or out of range
counts as ten. -/
def digitsOfWidth (width : Option Nat) : Nat :=
  (width.filter fun w => 0 < w ∧ w < UInt32.size).getD 10

section
variable {s : Text} {kind : IntegerKind} {width : Option Nat} {unsigned zerofill : Bool}

open IntegerKind

/-- Letters may change their case, the width in brackets stays. -/
theorem exists_of_spelling (h : Text.sameLetters s (kind.serverText width unsigned zerofill) = true) :
    ∃ base flags, s = base ++ (widthText width ++ flags) ∧ isWord base = true ∧
      Text.lower base = Text.lower kind.keyword ∧ Text.lower flags = flagsText unsigned zerofill := by
  obtain ⟨base, rest, hs, hbase, hrest⟩ := Text.sameLetters_append h
  obtain ⟨bracket, flags, rfl, hbracket, hflags⟩ := Text.sameLetters_append hrest
  have hlower : Text.lower base = Text.lower kind.keyword := by
    have htwice : Text.lower (Text.lower kind.keyword) = Text.lower kind.keyword := by
      cases kind <;> decide
    rw [beq_iff_eq.mp hbase, htwice]
  refine ⟨base, flags, ?_, isWord_iff.mpr ⟨?_, ?_⟩, hlower, ?_⟩
  · rw [hs, Text.eq_of_sameLetters hbracket fun c hc => widthText_letterless hc]
  · rintro rfl
    exact kind.keyword_ne_nil (List.map_eq_nil_iff.mp hlower.symm)
  · intro c hc
    have hmem : c.toLower ∈ Text.lower kind.keyword := by
      rw [← hlower]
      exact List.mem_map_of_mem hc
    rw [← isWordChar_toLower]
    exact kind.isWordChar_of_mem_keyword _ hmem
  · rw [beq_iff_eq.mp hflags]
    cases unsigned <;> cases zerofill <;> decide

/-- Every flag is a word behind a space. -/
theorem flags_cases {flags : Text} (h : Text.lower flags = flagsText unsigned zerofill) :
    '(' ∉ flags ∧ (∀ c ∈ flags.getLast?, Text.isBlank c = false) ∧
      (flags = [] ∨ ∃ rest, flags = ' ' :: rest) := by
  refine ⟨fun hm => ?_, isBlank_getLast?_lower.mp ?_, ?_⟩
  · have hlower : '(' ∈ Text.lower flags := List.mem_map_of_mem (f := Char.toLower) hm
    rw [h] at hlower
    cases unsigned <;> cases zerofill <;> exact absurd hlower (by decide)
  · rw [h]
    exact (Option.any_eq_false _ _).mp (by cases unsigned <;> cases zerofill <;> decide)
  · cases flags with
    | nil => exact .inl rfl
    | cons c rest =>
      have hhead : (flagsText unsigned zerofill).head?.all (· == ' ') = true := by
        cases unsigned <;> cases zerofill <;> decide
      rw [← h] at hhead
      rw [Text.eq_of_toLower_eq (beq_iff_eq.mp hhead) rfl]
      exact .inr ⟨rest, rfl⟩

theorem read_of_spelling (h : Text.sameLetters s (kind.serverText width unsigned zerofill) = true) :
    ∃ t, TypeText.read s = .ok t ∧ Text.lower t.base = Text.lower kind.keyword ∧
      t.parameters = width.map Text.natural := by
  obtain ⟨base, flags, rfl, hword, hbase, hflags⟩ := exists_of_spelling h
  obtain ⟨hopen, hlast, hspaced⟩ := flags_cases hflags
  cases width with
  | some w =>
    have hclose : Text.isBlank ')' = false := by decide
    have htext : base ++ (widthText (some w) ++ flags) =
        base ++ '(' :: (Text.natural w ++ ')' :: flags) := by
      simp only [widthText, List.cons_append, List.append_assoc, List.nil_append]
    refine ⟨_, htext ▸ TypeText.read_bracketed hword (Text.not_mem_natural rfl w) ?_, hbase, rfl⟩
    intro c hc
    rw [List.getLast?_cons] at hc
    cases hf : flags.getLast? with
    | none =>
      rw [hf] at hc
      exact Option.some.inj hc ▸ hclose
    | some x =>
      rw [hf] at hc
      exact Option.some.inj hc ▸ hlast x hf
  | none =>
    rw [widthText, List.nil_append]
    rcases hspaced with rfl | ⟨rest, rfl⟩
    · rw [List.append_nil]
      exact ⟨_, TypeText.read_of_isWord hword, hbase, rfl⟩
    · have hopen' : '(' ∉ rest := fun hm => hopen (List.mem_cons_of_mem _ hm)
      exact ⟨_, TypeText.read_spaced hword hopen' hlast, hbase, rfl⟩

theorem column_of_base {t : TypeText} (h : Text.lower t.base = Text.lower kind.keyword) :
    t.column = .ok (.integer, t.length?) := by
  unfold TypeText.column
  rw [h]
  cases kind <;> rfl

end

theorem size_of_width {c : Column} {width : Option Nat} {t : TypeText} (htype : c.type = .integer)
    (hlength : c.length = t.length?) (ht : t.parameters = width.map Text.natural) :
    c.size = digitsOfWidth width := by
  obtain ⟨base, parameters, attributes⟩ := t
  subst ht
  have husual : c.type.usualLength = 10 := by rw [htype]; rfl
  unfold Column.size digitsOfWidth
  rw [hlength, husual]
  cases width with
  | none => rfl
  | some w =>
    rw [Option.map_some, TypeText.length?_natural]
    by_cases hw : w < UInt32.size
    · have hnat : (UInt32.ofNat w).toNat = w := UInt32.toNat_ofNat_of_lt' hw
      by_cases hpos : 0 < w
      · have hpos' : 0 < UInt32.ofNat w := UInt32.lt_iff_toNat_lt.mpr (by rwa [hnat])
        simp [Option.filter_some, hw, hpos, hpos', hnat]
      · have hpos' : ¬ 0 < UInt32.ofNat w := fun hlt => hpos (by
          have := UInt32.lt_iff_toNat_lt.mp hlt
          rwa [hnat] at this)
        simp [Option.filter_some, hw, hpos, hpos']
    · simp [Option.filter_some, hw]

theorem Column.definition_of_integer (d : Dialect) {c : Column} (h : c.type = .integer) :
    ∃ rest, c.definition d = d.quote c.name ++ ' ' :: (integerType c.size ++ rest) := by
  unfold Column.definition
  rw [Column.typeWords, h]
  simp only [List.cons_append, Text.join_cons, List.flatMap_cons, List.append_assoc, List.nil_append]
  exact ⟨_, rfl⟩

/-- **An integer type is chosen by its width alone.** However the server spells an integer type, with
any width or without one, it is read as an integer, and the definition of that column names an integer
type. This has at least the size of the type read exactly if the width, or ten in place of a missing
one, has the digits for it. -/
theorem CatalogRow.integer_storage (d : Dialect) {row : CatalogRow} {kind : IntegerKind}
    {width : Option Nat} {unsigned zerofill : Bool}
    (h : Text.sameLetters row.type (kind.serverText width unsigned zerofill) = true) :
    ∃ c named rest, row.column = .ok c ∧
      c.define d = .ok (d.quote row.name ++ ' ' :: (IntegerKind.keyword named ++ '(' :: rest)) ∧
      (kind.bytes ≤ named.bytes ↔ kind.leastDigits ≤ digitsOfWidth width) := by
  obtain ⟨t, hread, hbase, hparameters⟩ := read_of_spelling h
  obtain ⟨c, hc, hname, htype, hlength⟩ := CatalogRow.column_of_read hread (column_of_base hbase)
  have hsize := size_of_width htype hlength hparameters
  obtain ⟨rest, hdefinition⟩ := c.definition_of_integer d htype
  obtain ⟨inner, hinteger⟩ := IntegerKind.integerType_eq c.size
  refine ⟨c, .ofDigits c.size, inner ++ rest, hc, (c.define_eq_ok_iff d).mpr ⟨?_, ?_⟩, ?_⟩
  · intro he
    rw [htype] at he
    cases he
  · rw [hinteger, List.append_assoc, List.cons_append, hname] at hdefinition
    exact hdefinition.symm
  · rw [hsize]
    exact IntegerKind.bytes_le_iff kind _

/-- A width with just enough digits, and every flag in mixed letter case. -/
theorem CatalogRow.integer_storage_flags :
    let d : Dialect := .ofFlavor .postgres
    let row : CatalogRow :=
      ⟨"n".toList, "MediumInt(6) Unsigned ZEROFILL".toList, "NO".toList, [], none, [], []⟩
    Text.sameLetters row.type (IntegerKind.medium.serverText (some 6) true true) = true ∧
      ∃ c named rest, row.column = .ok c ∧
        c.define d = .ok ("\"n\" ".toList ++ (IntegerKind.keyword named ++ '(' :: rest)) ∧
        IntegerKind.medium.bytes ≤ named.bytes := by
  intro d row
  have hspelled :
      Text.sameLetters row.type (IntegerKind.medium.serverText (some 6) true true) = true := by decide
  obtain ⟨c, named, rest, hc, htext, hbytes⟩ := CatalogRow.integer_storage d hspelled
  exact ⟨hspelled, c, named, rest, hc, htext, hbytes.mpr (by decide)⟩

/-- A big integer without a width becomes a regular one, and a regular one with a small width a tiny
one. -/
theorem CatalogRow.bigint_narrowed :
    let d : Dialect := .ofFlavor .mysql
    (∃ c, (⟨"n".toList, "bigint".toList, "NO".toList, [], none, [], []⟩ : CatalogRow).column = .ok c ∧
      c.define d = .ok "`n` INT(10) NOT NULL".toList) ∧
    (∃ c, (⟨"n".toList, "int(1)".toList, "NO".toList, [], none, [], []⟩ : CatalogRow).column = .ok c ∧
      c.define d = .ok "`n` TINYINT(3) NOT NULL".toList) ∧
    IntegerKind.regular.bytes < IntegerKind.big.bytes ∧
      IntegerKind.tiny.bytes < IntegerKind.regular.bytes :=
  ⟨⟨_, rfl, congrArg Except.ok (by decide)⟩, ⟨_, rfl, congrArg Except.ok (by decide)⟩, by decide,
    by decide⟩

end SqlForge
