import SqlForge.Proofs.Calls
import SqlForge.Proofs.Guards
import SqlForge.Proofs.Selections

/-!
# Names of tables in a query

Of several tables each gets a name of its own behind `AS`, which is then used in the list of the
selection too. It is quoted as any name is, so it becomes one identifier unless it holds a point: then
it is cut there, and what stands behind `AS` is two identifiers or an identifier and a star.
-/

namespace SqlForge

namespace Text

theorem isBlank_of_mem_capital {c x : Char} (hx : x ∈ capital c) (hc : isBlank c = false) :
    isBlank x = false := by
  have hranges : ∀ r ∈ blankRanges, 0 < r.1 ∧ NoCapital r.1 r.2 := by decide +kernel
  by_contra hblank
  simp only [isBlank, Bool.not_eq_false, List.any_eq_true, Bool.and_eq_true, decide_eq_true_eq]
    at hblank
  obtain ⟨r, hr, hfirst, hlast⟩ := hblank
  have hsame := eq_of_mem_capital (hranges r hr).2 (hranges r hr).1 hfirst hlast hx
  subst hsame
  rw [isBlank, List.any_eq_false] at hc
  exact hc r hr (by simp [hfirst, hlast])

/-- A capital in front leaves nothing to trim. -/
theorem strip_capitalize {s : Text} (h : strip s = s) : strip (capitalize s) = capitalize s := by
  cases s with
  | nil => rfl
  | cons c s =>
    obtain ⟨hhead, hlast⟩ := ends_of_trim h
    have hc : ∀ x ∈ capital c, isBlank x = false := fun x hx =>
      isBlank_of_mem_capital hx (hhead c rfl)
    rw [capitalize]
    apply trim_of_ends
    · intro x hx
      rw [List.head?_append_of_ne_nil _ (capital_ne_nil c)] at hx
      exact hc x (List.mem_of_head? hx)
    · intro x hx
      rw [List.getLast?_append] at hx
      cases hs : s.getLast? with
      | none =>
        rw [hs, Option.none_or] at hx
        exact hc x (List.mem_of_getLast? hx)
      | some y =>
        rw [hs, Option.some_or] at hx
        exact hlast x (by rw [List.getLast?_cons, hs]; exact hx)

end Text

/-- The name of a table in the rest of a query: its alias, or its own name if the alias is missing or
blank, without blanks around it and with its first letter in upper case. -/
def correlationName (given : Option Text) (table : Text) : Text :=
  let name := match given with
    | some a => if a.all Text.isBlank then table else a
    | none => table
  Text.capitalize (Text.strip name)

namespace Flavor

variable (f : Flavor)

/-- Two marks around a text without marks. -/
def IsIdentifier (s : Text) : Prop := ∃ name, f.mark ∉ name ∧ s = f.enclose name

/-- How a name is written: as one identifier, or cut at its first point. -/
inductive Quotes (name : Text) : Text → Prop
  | whole (h : '.' ∉ name) : Quotes name (f.enclose name)
  | star {qualifier : Text} (hq : '.' ∉ qualifier) (h : name = qualifier ++ ".*".toList) :
      Quotes name (f.enclose qualifier ++ ".*".toList)
  | member {qualifier member : Text} (hq : '.' ∉ qualifier) (hm : member ≠ ['*'])
      (h : name = qualifier ++ '.' :: member) :
      Quotes name (f.enclose qualifier ++ '.' :: f.enclose member)

theorem not_isIdentifier_of_point (qualifier rest : Text) :
    ¬ f.IsIdentifier (f.enclose qualifier ++ '.' :: rest) := by
  rintro ⟨name, hname, h⟩
  have h' : (qualifier ++ [f.mark]) ++ '.' :: rest = name ++ [f.mark] := (List.cons.inj h).2
  rcases List.append_eq_append_iff.mp h' with ⟨l, rfl, -⟩ | ⟨l, -, hl⟩
  · exact hname (by simp)
  · cases l with
    | nil => cases f <;> cases hl
    | cons x l => simp at hl

theorem mark_not_mem_correlationName {given : Option Text} {table : Text}
    (hg : ∀ a ∈ given, f.mark ∉ a) (ht : f.mark ∉ table) : f.mark ∉ correlationName given table := by
  have hcapital : Text.NoCapital f.mark.toNat f.mark.toNat := by cases f <;> decide +kernel
  have hpos : 0 < f.mark.toNat := by cases f <;> decide
  intro hx
  have hname := Text.mem_of_mem_trim (Text.mem_of_mem_capitalize hcapital hpos hx)
  cases given with
  | none => exact ht hname
  | some a =>
    dsimp only at hname
    split at hname
    · exact ht hname
    · exact hg a rfl hname

variable {f} {name s : Text}

theorem Quotes.isIdentifier_iff (h : f.Quotes name s) (hmark : f.mark ∉ name) :
    f.IsIdentifier s ↔ '.' ∉ name := by
  cases h with
  | whole h => exact ⟨fun _ => h, fun _ => ⟨name, hmark, rfl⟩⟩
  | star _ h => exact iff_of_false (f.not_isIdentifier_of_point _ _) (by simp [h])
  | member _ _ h => exact iff_of_false (f.not_isIdentifier_of_point _ _) (by simp [h])

theorem quotes_quote (h : Text.strip name = name) : f.Quotes name (f.quote name) := by
  rw [quote]
  rcases f.identifier_cases false name with ⟨hp, hw⟩ | ⟨qualifier, member, hname, hq, hw⟩
  · rw [h] at hp hw
    rw [hw]
    exact .whole hp
  · rw [h] at hname
    rw [hw]
    by_cases hm : member = ['*']
    · rw [hm, f.member_star]
      exact .star hq (by rw [hname, hm]; rfl)
    · rw [f.member_of_ne hm]
      exact .member hq hm hname

theorem aliasFor_eq (f : Flavor) (given : Option Text) (table : Text) :
    f.aliasFor given table = f.quote (correlationName given table) := by
  cases given with
  | none => rfl
  | some a =>
    rw [aliasFor, Option.filter_some, correlationName]
    by_cases ha : a.all Text.isBlank = true
    · simp [Text.strip_eq_nil_iff.mpr ha, ha]
    · simp [mt Text.strip_eq_nil_iff.mp ha, ha]

theorem quotes_aliasFor (f : Flavor) (given : Option Text) (table : Text) :
    f.Quotes (correlationName given table) (f.aliasFor given table) := by
  rw [aliasFor_eq]
  exact quotes_quote (Text.strip_capitalize (Text.trim_trim _ _))

theorem mapM_table? : ∀ {tables : List (Option Text × Text)},
    (∀ t ∈ tables, t.2.all Text.isBlank = false) →
    tables.mapM (fun t => f.table? t.2) = some (tables.map fun t => f.quote t.2)
  | [], _ => rfl
  | t :: ts, h => by
    have ht : f.table? t.2 = some (f.quote t.2) := by
      have hne : ¬ Text.strip t.2 = [] := by
        rw [Text.strip_eq_nil_iff, h t List.mem_cons_self]
        exact Bool.false_ne_true
      rw [table?, if_neg hne]
    rw [List.mapM_cons, ht, mapM_table? fun t' ht' => h t' (List.mem_cons_of_mem t ht')]
    rfl

/-- Each table with its alias, in the order of the tables. -/
def listing (f : Flavor) (tables : List (Option Text × Text)) (aliases : List Text) : Text :=
  Text.join ", ".toList (List.zipWith (fun t a => f.quote t.2 ++ " AS ".toList ++ a) tables aliases)

theorem source?_many {tables : List (Option Text × Text)} (hne : tables ≠ [])
    (h : ∀ t ∈ tables, t.2.all Text.isBlank = false) :
    let aliases := tables.map fun t => f.aliasFor t.1 t.2
    f.source? (.many tables) = some ⟨f.listing tables aliases, aliases⟩ := by
  intro aliases
  obtain ⟨t, ts, rfl⟩ := List.exists_cons_of_ne_nil hne
  rw [source?, mapM_table? h, Option.map_some, listing, List.zipWith_map_right, List.zipWith_self]
  · dsimp only
    rw [List.zipWith_map, List.zipWith_self]
  · simp

end Flavor

namespace Dialect

variable {d : Dialect}

theorem write_select (q : Query) (source : From) (members : List Template) :
    ∃ (more : List Text) (bs : Bindings), (Sentence.select d q source members).write d .empty =
      ("SELECT ".toList ++ q.selection d source.names ++ " FROM ".toList ++ source.clause ++
        more.flatMap (' ' :: ·), bs) := by
  let clauses := Clause.restriction members ++ Clause.text "ORDER BY".toList (q.ordering? d) ++
    Clause.text "GROUP BY".toList (q.grouping? d) ++ Clause.window q.window
  have hselect : Sentence.select d q source members = Sentence.ofClauses
      (Clause.text "SELECT".toList (some (q.selection d source.names)) ++
        Clause.text "FROM".toList (some source.clause) ++ clauses) := by
    simp only [Sentence.select, clauses, List.append_assoc]
  refine ⟨(Template.writeAll d clauses .empty).1, (Template.writeAll d clauses .empty).2, ?_⟩
  rw [hselect, Sentence.ofClauses, Template.write_join, Template.writeAll_append]
  simp [Clause.text, Template.writeAll, Template.ofText, Template.write, Text.join_cons]

theorem selection_of_many {q : Query} (hreach : q.reach ≠ .count) (hfields : q.fields = [])
    {names : List Text} (hnames : 2 ≤ names.length) :
    q.selection d names = Text.join ", ".toList (names.map (· ++ ".*".toList)) := by
  unfold Query.selection
  cases hr : q.reach with
  | count => exact absurd hr hreach
  | all => simp [hfields, Nat.lt_of_succ_le hnames]
  | first => simp [hfields, Nat.lt_of_succ_le hnames]

/-- **The tables of a query go by their names.** Of tables that are not blank each is listed behind `FROM`
with its name quoted behind `AS`, and where several are selected from without fields, each of the same
quoted names is followed by a star. If no text holds the mark of the flavor, a quoted name is one
identifier exactly if the name holds no point; otherwise it comes in two parts. -/
theorem tables_named (d : Dialect) {tables : List (Option Text × Text)} (hne : tables ≠ [])
    (hblank : ∀ t ∈ tables, t.2.all Text.isBlank = false)
    (hmark : ∀ s ∈ (Source.many tables).texts, d.flavor.mark ∉ s) :
    ∃ aliases, tables.Forall₂ (fun t a => d.flavor.Quotes (correlationName t.1 t.2) a ∧
        (d.flavor.IsIdentifier a ↔ '.' ∉ correlationName t.1 t.2)) aliases ∧
      ∀ q begun, q.source = .many tables → q.conditions.connective? = none →
        ∃ (selection : Text) (more : List Text) (bs : Bindings),
          let front := "SELECT ".toList ++ selection ++ " FROM ".toList ++
            d.flavor.listing tables aliases
          let st := d.finish (begun + 1) (front ++ more.flatMap (' ' :: ·)) bs
          d.compile begun (.select q) = (.ok st, begun + 1) ∧
            (q.reach ≠ .count → q.fields = [] → 2 ≤ tables.length →
              selection = Text.join ", ".toList (aliases.map (· ++ ".*".toList))) ∧
            ((∀ s ∈ q.texts, ':' ∉ s) → front <+: st.sql) := by
  let aliases := tables.map fun t => d.flavor.aliasFor t.1 t.2
  let source : From := ⟨d.flavor.listing tables aliases, aliases⟩
  have hsource : d.flavor.source? (.many tables) = some source := Flavor.source?_many hne hblank
  refine ⟨aliases, ?_, ?_⟩
  · rw [List.forall₂_map_right_iff, List.forall₂_same]
    intro t ht
    have hquotes := d.flavor.quotes_aliasFor t.1 t.2
    have htexts : ∀ s ∈ t.1.toList ++ [t.2], d.flavor.mark ∉ s := fun s hs =>
      hmark s (List.mem_flatMap.mpr ⟨t, ht, hs⟩)
    refine ⟨hquotes, hquotes.isIdentifier_iff (d.flavor.mark_not_mem_correlationName ?_ ?_)⟩
    · exact fun a ha => htexts a (by simp [Option.mem_def.mp ha])
    · exact htexts t.2 (by simp)
  · intro q begun hq hconditions
    rw [← hq] at hsource
    obtain ⟨ts, hts⟩ := Conditions.traverse_of_no_connective (d := d)
      (List.findSome?_eq_none_iff.mp hconditions)
    let members := ts.members Template.ofText
    have hplan : d.plan (.select q) = .ready (Sentence.select d q source members) := by
      rw [plan, hsource]
      simp only [withConditions, conditions, hts, Except.map, members]
    obtain ⟨more, bs, hwrite⟩ := d.write_select q source members
    refine ⟨q.selection d aliases, more, bs, ?_, fun hreach hfields hlength => ?_, fun hcolon => ?_⟩
    · rw [compile_ready hplan begun, complete, hwrite]
    · exact selection_of_many hreach hfields (by simpa [aliases] using hlength)
    · obtain ⟨htexts, hfields⟩ := Query.forall_texts hcolon
      obtain ⟨hclause, hnames⟩ := Flavor.colon_not_mem_source hsource htexts
      have hselection := d.colon_not_mem_selection hfields hnames
      refine ⟨_, (Bindings.fillAll_plain_append _ ?_ _ _).symm⟩
      simp only [List.mem_append, not_or]
      exact ⟨⟨⟨by decide, hselection⟩, by decide⟩, hclause⟩

/-- An alias with blanks around it, and a blank one. -/
theorem tables_named_twice :
    let d : Dialect := .ofFlavor .postgres
    let tables : List (Option Text × Text) :=
      [(some " author ".toList, "users".toList), (some " ".toList, "posts".toList)]
    let q : Query := ⟨.all, .many tables, [], .nil, none, [], none, none⟩
    (∀ t ∈ tables, t.2.all Text.isBlank = false) ∧
      (∀ s ∈ (Source.many tables).texts, d.flavor.mark ∉ s) ∧
      ∃ a b st, d.flavor.IsIdentifier a ∧ d.flavor.IsIdentifier b ∧
        d.compile 0 (.select q) = (.ok st, 1) ∧
        "SELECT ".toList ++ Text.join ", ".toList [a ++ ".*".toList, b ++ ".*".toList] ++
          " FROM ".toList ++ d.flavor.listing tables [a, b] <+: st.sql := by
  intro d tables q
  have hblank : ∀ t ∈ tables, t.2.all Text.isBlank = false := by decide
  have hmark : ∀ s ∈ (Source.many tables).texts, d.flavor.mark ∉ s := by decide
  obtain ⟨aliases, hnames, hquery⟩ := tables_named d (List.cons_ne_nil _ _) hblank hmark
  obtain ⟨selection, more, bs, hcompile, hselection, hsql⟩ := hquery q 0 rfl rfl
  cases hnames with
  | @cons _ a _ _ ha hrest =>
    cases hrest with
    | @cons _ b _ _ hb hnil =>
      cases hnil
      obtain rfl := hselection (by decide) rfl (by decide)
      exact ⟨hblank, hmark, a, b, _, ha.2.mpr (by decide +kernel), hb.2.mpr (by decide +kernel),
        hcompile, hsql (by decide)⟩

/-- A table with a qualifier, which SQL lets no alias have. -/
theorem alias_of_qualified_table :
    let d : Dialect := .ofFlavor .mysql
    let tables : List (Option Text × Text) := [(none, "db.users".toList)]
    let a := "`Db`.`users`".toList
    (∀ t ∈ tables, t.2.all Text.isBlank = false) ∧
      (∀ s ∈ (Source.many tables).texts, d.flavor.mark ∉ s) ∧
      correlationName none "db.users".toList = "Db.users".toList ∧
      d.flavor.source? (.many tables) = some ⟨"`db`.`users` AS `Db`.`users`".toList, [a]⟩ ∧
      ¬ d.flavor.IsIdentifier a ∧
      ∃ st, d.compile 0 (.select ⟨.all, .many tables, [], .nil, none, [], none, none⟩) = (.ok st, 1) ∧
        st.sql = "SELECT * FROM `db`.`users` AS `Db`.`users`".toList := by
  intro d tables a
  refine ⟨by decide, by decide, by decide +kernel, by decide +kernel, ?_, _, rfl, by decide +kernel⟩
  exact Flavor.not_isIdentifier_of_point .mysql "Db".toList "`users`".toList

end Dialect

end SqlForge
