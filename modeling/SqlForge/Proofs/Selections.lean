import SqlForge.Proofs.Changes

/-!
# Selected rows

The clauses of a query are there or not, each by itself, and every one that is
there is rendered at once. The two numbers behind `LIMIT` have only a comma
between their placeholders, which no key holds; so after the conditions they
too end in their own places, and no placeholder is left.
-/

namespace SqlForge

/-! ## Texts without colons -/

namespace Text

/-- No letter has a capital with a code point from `first` to `last`. -/
def NoCapital (first last : Nat) : Prop :=
  (∀ r ∈ capitalRuns, (r.2.1 + r.2.2.2 : Int) < first ∨ (last : Int) < r.1 + r.2.2.2) ∧
    ∀ p ∈ capitalSequences, ∀ n ∈ p.2, n < first ∨ last < n

instance (first last : Nat) : Decidable (NoCapital first last) :=
  inferInstanceAs (Decidable (_ ∧ _))

theorem eq_ofNat_of_toNat_pos {x : Char} {n : Nat} (h : x = Char.ofNat n) (hx : 0 < x.toNat) :
    x.toNat = n := by
  subst h
  unfold Char.ofNat at hx ⊢
  by_cases hvalid : n.isValidChar
  · rw [dif_pos hvalid]
    rfl
  · rw [dif_neg hvalid] at hx
    cases hx

/-- What is no capital stands only for itself. -/
theorem eq_of_mem_capital {c x : Char} {first last : Nat} (h : NoCapital first last)
    (hpos : 0 < first) (hfirst : first ≤ x.toNat) (hlast : x.toNat ≤ last) (hx : x ∈ capital c) :
    x = c := by
  unfold capital at hx
  split at hx
  · rename_i shift hshift
    obtain ⟨⟨start, stop, step, shift'⟩, hfind, e⟩ := Option.map_eq_some_iff.mp hshift
    change shift' = shift at e
    subst e
    have hrun := h.1 _ (List.mem_of_find?_eq_some hfind)
    have hrange := List.find?_some hfind
    simp only [Bool.and_eq_true, decide_eq_true_eq] at hrange hrun
    have hn := eq_ofNat_of_toNat_pos (List.mem_singleton.mp hx) (by omega)
    omega
  · split at hx
    · rename_i codes hcodes
      obtain ⟨l, l', e, -⟩ := List.lookup_eq_some_iff.mp hcodes
      obtain ⟨n, hmem, rfl⟩ := List.mem_map.mp hx
      have hcode := h.2 (c.toNat, codes) (by rw [e]; simp) n hmem
      have hn := eq_ofNat_of_toNat_pos (rfl : Char.ofNat n = _) (by omega)
      omega
    · exact List.mem_singleton.mp hx

theorem mem_of_mem_capitalize {s : Text} {x : Char} (h : NoCapital x.toNat x.toNat)
    (hpos : 0 < x.toNat) (hx : x ∈ capitalize s) : x ∈ s := by
  cases s with
  | nil => exact hx
  | cons c s =>
    rcases List.mem_append.mp hx with hx | hx
    · rw [eq_of_mem_capital h hpos (Nat.le_refl _) (Nat.le_refl _) hx]
      exact List.mem_cons_self
    · exact List.mem_cons_of_mem c hx

theorem colon_not_mem_capitalize {s : Text} (h : ':' ∉ s) : ':' ∉ capitalize s :=
  fun hx => h (mem_of_mem_capitalize (by decide +kernel) (by decide) hx)

end Text

def Source.texts : Source → List Text
  | one table => [table]
  | many tables => tables.flatMap fun (given, table) => given.toList ++ [table]

/-- The texts of a query that are written into the statement as identifiers. -/
def Query.texts (q : Query) : List Text :=
  q.source.texts ++ q.fields.flatMap Field.expressions ++
    (match q.order with
      | some (.by columns) => columns.map Prod.fst
      | _ => []) ++
    q.groups

theorem Query.forall_texts {q : Query} {P : Text → Prop} (h : ∀ s ∈ q.texts, P s) :
    (∀ s ∈ q.source.texts, P s) ∧ ∀ s ∈ q.fields.flatMap Field.expressions, P s := by
  refine ⟨fun s hs => h s (by simp [Query.texts, hs]), fun s hs => h s ?_⟩
  rw [Query.texts, List.append_assoc, List.append_assoc]
  exact List.mem_append_right _ (List.mem_append_left _ hs)

namespace Flavor

theorem colon_not_mem_aliasFor (f : Flavor) {given : Option Text} {table : Text}
    (hg : ∀ a ∈ given, ':' ∉ a) (ht : ':' ∉ table) : ':' ∉ f.aliasFor given table := by
  apply colon_not_mem_quote
  apply Text.colon_not_mem_capitalize
  intro h
  have hname := Text.mem_of_mem_trim h
  cases hf : given.filter fun a => Text.strip a ≠ [] with
  | none =>
    rw [hf] at hname
    exact ht hname
  | some a =>
    rw [hf] at hname
    exact hg a (Option.mem_filter_iff.mp hf).1 hname

theorem eq_map_of_mapM_table? (f : Flavor) : ∀ {tables : List (Option Text × Text)} {quoted : List Text},
    tables.mapM (fun t => f.table? t.2) = some quoted → quoted = tables.map fun t => f.quote t.2
  | [], _, h => by cases h; rfl
  | t :: ts, quoted, h => by
    rw [List.mapM_cons] at h
    obtain ⟨name, hname, h⟩ := Option.bind_eq_some_iff.mp h
    obtain ⟨names, hnames, h⟩ := Option.bind_eq_some_iff.mp h
    cases h
    rw [eq_map_of_mapM_table? f hnames, List.map_cons]
    unfold table? at hname
    split at hname <;> cases hname
    rfl

theorem colon_not_mem_source {f : Flavor} {src : Source} {source : From}
    (h : f.source? src = some source) (hs : ∀ s ∈ src.texts, ':' ∉ s) :
    ':' ∉ source.clause ∧ ∀ n ∈ source.names, ':' ∉ n := by
  unfold source? at h
  split at h
  · rename_i table
    obtain ⟨name, hname, rfl⟩ := Option.map_eq_some_iff.mp h
    have hq : ':' ∉ name := by
      unfold table? at hname
      split at hname <;> cases hname
      exact colon_not_mem_quote f (hs table List.mem_cons_self)
    exact ⟨hq, fun n hn => by rw [List.mem_singleton.mp hn]; exact hq⟩
  · cases h
  · rename_i tables _
    obtain ⟨quoted, hquoted, rfl⟩ := Option.map_eq_some_iff.mp h
    have htable : ∀ t ∈ tables, ':' ∉ f.quote t.2 := fun t ht =>
      colon_not_mem_quote f (hs t.2 (List.mem_flatMap.mpr ⟨t, ht, by simp⟩))
    have halias : ∀ t ∈ tables, ':' ∉ f.aliasFor t.1 t.2 := fun t ht => by
      refine f.colon_not_mem_aliasFor (fun a ha => ?_) (hs t.2 (List.mem_flatMap.mpr ⟨t, ht, by simp⟩))
      exact hs a (List.mem_flatMap.mpr ⟨t, ht, by simp [Option.mem_def.mp ha]⟩)
    dsimp only
    refine ⟨?_, ?_⟩
    · rw [f.eq_map_of_mapM_table? hquoted, List.zipWith_map, List.zipWith_self]
      apply Text.not_mem_join (by decide)
      intro s hm
      obtain ⟨t, ht, rfl⟩ := List.mem_map.mp hm
      have hq := htable t ht
      have ha := halias t ht
      simp [hq, ha]
    · intro n hn
      obtain ⟨t, ht, rfl⟩ := List.mem_map.mp hn
      exact halias t ht

end Flavor

namespace Dialect

variable (d : Dialect)

theorem colon_not_mem_expression {s : Text} (h : ':' ∉ s) : ':' ∉ d.expression s := by
  unfold expression
  split
  · rename_i source name hcut
    have hs : ':' ∉ d.quote source :=
      colon_not_mem_quote d.flavor fun hm => h (Text.mem_of_cutWord? hcut (.inl hm))
    have hn : ':' ∉ d.quote name :=
      colon_not_mem_quote d.flavor fun hm => h (Text.mem_of_cutWord? hcut (.inr hm))
    simp [hs, hn]
  · exact colon_not_mem_quote d.flavor h

theorem colon_not_mem_selection {q : Query} {names : List Text}
    (hf : ∀ s ∈ q.fields.flatMap Field.expressions, ':' ∉ s) (hn : ∀ n ∈ names, ':' ∉ n) :
    ':' ∉ q.selection d names := by
  unfold Query.selection
  split
  · have hq : ':' ∉ d.quote "count".toList := colon_not_mem_quote d.flavor (by decide)
    rw [List.mem_append, not_or]
    exact ⟨by decide, hq⟩
  all_goals
    split
    · apply Text.not_mem_join (by decide)
      intro t ht
      obtain ⟨s, hs, rfl⟩ := List.mem_map.mp ht
      exact d.colon_not_mem_expression (hf s hs)
    · split
      · apply Text.not_mem_join (by decide)
        intro t ht
        obtain ⟨n, hm, rfl⟩ := List.mem_map.mp ht
        have := hn n hm
        simp [this]
      · decide

theorem colon_not_mem_ordering {q : Query} (h : ∀ s ∈ q.texts, ':' ∉ s) :
    ∀ s ∈ q.ordering? d, ':' ∉ s := by
  intro s hs
  unfold Query.ordering? at hs
  split at hs
  · cases hs
  · cases hs
  · rename_i columns _ horder
    cases hs
    apply Text.not_mem_join (by decide)
    intro t ht
    obtain ⟨⟨c, dir⟩, hc, rfl⟩ := List.mem_map.mp ht
    have hq : ':' ∉ d.quote c := by
      apply colon_not_mem_quote
      apply h
      simp only [Query.texts, horder, List.mem_append]
      exact .inl (.inr (List.mem_map.mpr ⟨(c, dir), hc, rfl⟩))
    have hk : ':' ∉ dir.keyword := by cases dir <;> decide
    simp [hq, hk]
  · cases hs
    cases d.flavor <;> decide

theorem colon_not_mem_grouping {q : Query} (h : ∀ s ∈ q.texts, ':' ∉ s) :
    ∀ s ∈ q.grouping? d, ':' ∉ s := by
  intro s hs
  unfold Query.grouping? at hs
  split at hs
  · cases hs
  · cases hs
    apply Text.not_mem_join (by decide)
    intro t ht
    obtain ⟨g, hg, rfl⟩ := List.mem_map.mp ht
    exact colon_not_mem_quote d.flavor (h g (List.mem_append_right _ hg))

/-! ## A query with its literals -/

def orderClause : Option RowOrder → List Text
  | none | some (.by []) => []
  | some (.by columns) =>
    ["ORDER BY".toList,
      Text.join ", ".toList (columns.map fun (c, dir) => d.quote c ++ ' ' :: dir.keyword)]
  | some .random => ["ORDER BY".toList, d.flavor.random]

def groupClause : List Text → List Text
  | [] => []
  | groups => ["GROUP BY".toList, Text.join ", ".toList (groups.map d.quote)]

/-- The statement of a query, with the texts behind `FROM` and `LIMIT` as they are given. -/
def selectText (q : Query) (source : From) (limit : Option Text) : Text :=
  Text.join [' '] <|
    ["SELECT".toList, q.selection d source.names, "FROM".toList, source.clause] ++
    (if q.conditions.leaves = [] then [] else d.whereClause q.conditions) ++
    d.orderClause q.order ++ d.groupClause q.groups ++ limitClause limit

end Dialect

namespace Query

/-- What stands behind `LIMIT`, where `number` writes a number. The first row alone is wanted
without an offset, and an offset alone limits nothing. -/
def limitText (number : UInt64 → Text) (q : Query) : Option Text :=
  match q.reach, q.limit, q.offset with
  | .first, _, _ => some (number 1)
  | _, none, _ => none
  | _, some limit, none => some (number limit)
  | _, some limit, some offset => some (number offset ++ ',' :: number limit)

def counts (q : Query) : List UInt64 :=
  q.window.elim [] fun (offset, limit) => offset.toList ++ [limit]

end Query

namespace Dialect

variable {d : Dialect}

/-! ## Clauses of a query -/

/-- Digits that are left as they are spell no placeholder. -/
theorem quiet_unsigned {m : UInt64}
    (h : d.cleans = true → d.escape (Text.natural m.toNat) = Text.natural m.toNat) :
    d.Quiet (.unsigned m) := by
  intro w _ hi
  rw [lit_unsigned h] at hi
  have hm := hi.subset (colon_mem_placeholder w)
  exact absurd hm (Text.not_mem_natural (by decide) _)

theorem fit_window {window : Option (Option UInt64 × UInt64)}
    (h : ∀ m ∈ window.elim [] fun (offset, limit) => offset.toList ++ [limit], d.Quiet (.unsigned m)) :
    ∀ t ∈ Clause.window window, Template.Fit d t := by
  have hlimit : isName "limit".toList = true := by decide
  have hoffset : isName "offset".toList = true := by decide
  intro t ht
  match window with
  | none => cases ht
  | some (none, limit) =>
    cases List.mem_singleton.mp ht
    exact .slot (by decide) hlimit (h limit (by simp))
  | some (some offset, limit) =>
    cases List.mem_singleton.mp ht
    refine ⟨⟨by decide, .inl trivial, by decide, .inr ⟨',', by decide, rfl⟩, trivial⟩, ?_⟩
    intro b hb
    simp only [rowCount, Outline.slots, List.mem_cons, List.not_mem_nil, or_false] at hb
    rcases hb with rfl | rfl
    · exact ⟨hoffset, h offset (by simp)⟩
    · exact ⟨hlimit, h limit (by simp)⟩

theorem inline_query_window (q : Query) :
    (Clause.window q.window).map (Template.inline d) =
      limitClause (q.limitText fun m => d.lit (.unsigned m)) := by
  obtain ⟨reach, -, -, -, -, -, limit, offset⟩ := q
  cases reach <;> cases limit <;> cases offset <;>
    simp [Query.window, Query.limitText, Clause.window, rowCount, Template.inline, Outline.spell,
      limitClause]

theorem inline_query_restriction {cs : Conditions Condition} {ts : List Template}
    (h : ts.map (Template.inline d) = (cs.map d.conditionText).members id) :
    (Clause.restriction ts).map (Template.inline d) =
      if cs.leaves = [] then [] else d.whereClause cs := by
  have hleaves : ts = [] ↔ cs.leaves = [] := by
    rw [← List.map_eq_nil_iff (f := Template.inline d), h, Conditions.members_eq_nil_iff,
      Conditions.leaves_map, List.map_eq_nil_iff]
  by_cases hn : ts = []
  · rw [if_pos (hleaves.mp hn), hn]
    rfl
  · rw [if_neg (mt hleaves.mpr hn), inline_restriction hn h]

theorem inline_text (keyword : Text) (s? : Option Text) :
    (Clause.text keyword s?).map (Template.inline d) = s?.elim [] fun s => [keyword, s] := by
  cases s? with
  | none => rfl
  | some s => simp [Clause.text, Template.inline, Template.ofText, Outline.spell]

theorem inline_ordering (q : Query) :
    (Clause.text "ORDER BY".toList (q.ordering? d)).map (Template.inline d) = d.orderClause q.order := by
  rw [inline_text]
  unfold Query.ordering? orderClause
  cases q.order with
  | none => rfl
  | some order =>
    cases order with
    | random => rfl
    | «by» columns => cases columns <;> rfl

theorem inline_grouping (q : Query) :
    (Clause.text "GROUP BY".toList (q.grouping? d)).map (Template.inline d) = d.groupClause q.groups := by
  rw [inline_text]
  unfold Query.grouping? groupClause
  cases q.groups with
  | nil => rfl
  | cons g gs => rfl

theorem select_ready {q : Query} {t : Template} (h : d.plan (.select q) = .ready t) :
    ∃ source ts, d.flavor.source? q.source = some source ∧ d.conditions q.conditions = .ok ts ∧
      t = Sentence.select d q source ts := by
  rw [plan] at h
  cases hsource : d.flavor.source? q.source with
  | none => rw [hsource] at h; cases h
  | some source =>
    cases hts : d.conditions q.conditions with
    | error e => simp only [hsource, withConditions, hts] at h; cases h
    | ok ts =>
      simp only [hsource, withConditions, hts] at h
      exact ⟨source, ts, rfl, rfl, (Plan.ready.inj h).symm⟩

theorem fit_select {q : Query} {source : From} {ts : List Template}
    (hsource : d.flavor.source? q.source = some source) (hq : ∀ s ∈ q.texts, ':' ∉ s)
    (hts : ∀ t ∈ ts, Template.Fit d t) (hw : ∀ m ∈ q.counts, d.Quiet (.unsigned m)) :
    Template.Fit d (Sentence.select d q source ts) := by
  obtain ⟨htexts, hfields⟩ := Query.forall_texts hq
  obtain ⟨hclause, hnames⟩ := Flavor.colon_not_mem_source hsource htexts
  apply Template.Fit.join (by decide) ⟨' ', by decide, rfl⟩
  intro t ht
  simp only [List.mem_append] at ht
  rcases ht with ((((ht | ht) | ht) | ht) | ht) | ht
  · refine fit_text (by decide) (fun s hs => ?_) t ht
    cases hs
    exact d.colon_not_mem_selection hfields hnames
  · refine fit_text (by decide) (fun s hs => ?_) t ht
    cases hs
    exact hclause
  · exact fit_restriction hts t ht
  · exact fit_text (by decide) (d.colon_not_mem_ordering hq) t ht
  · exact fit_text (by decide) (d.colon_not_mem_grouping hq) t ht
  · exact fit_window hw t ht

theorem inline_select {q : Query} {source : From} {ts : List Template}
    (hts : ts.map (Template.inline d) = (q.conditions.map d.conditionText).members id) :
    (Sentence.select d q source ts).inline d =
      d.selectText q source (q.limitText fun m => d.lit (.unsigned m)) := by
  have hjoin := Template.spell_join (fun b => d.lit b.value) [' ']
  rw [Sentence.select, Sentence.ofClauses, Template.inline, hjoin, selectText]
  refine congrArg (Text.join [' ']) ?_
  change List.map (Template.inline d) _ = _
  simp only [List.map_append, inline_query_restriction hts, inline_ordering, inline_grouping,
    inline_query_window]
  simp [inline_text]

/-- **Selections are rendered at once.** Where the names of a query hold no colon, its conditions
compare names, and no literal spells the placeholder of a name, each clause that is asked for stands
in its place with all literals written into it, and no placeholder of a bound value is left. The
literal of a number is its digits, unless the dialect escapes digits. -/
theorem select_sql (d : Dialect) (begun : Nat) {q : Query} (hq : ∀ s ∈ q.texts, ':' ∉ s)
    (hcs : ∀ c ∈ q.conditions.leaves, d.Suits c) (hw : ∀ m ∈ q.counts, d.Quiet (.unsigned m)) :
    (∀ st n, d.compile begun (.select q) = (.ok st, n) →
      (∃ source, d.flavor.source? q.source = some source ∧
        st.sql = d.selectText q source (q.limitText fun m => d.lit (.unsigned m))) ∧
      ∀ key ∈ st.bindings.keys, ¬ placeholder key <:+: st.sql) ∧
    ∀ m, (d.cleans = true → d.escape (Text.natural m.toNat) = Text.natural m.toNat) →
      d.lit (.unsigned m) = Text.natural m.toNat := by
  refine ⟨?_, fun m h => lit_unsigned h⟩
  intro st n h
  obtain ⟨t, hplan, rfl⟩ := ready_of_compile h
  obtain ⟨source, ts, hsource, hts, rfl⟩ := select_ready hplan
  obtain ⟨hinline, hfit⟩ := d.conditions_ok (fun c hc => d.word_of_suits (hcs c hc)) hts
  have hselect := fit_select hsource hq hfit hw
  refine ⟨⟨source, hsource, ?_⟩, fun key hk => hselect.no_placeholder _ hk⟩
  rw [hselect.complete, inline_select hinline]

/-- All clauses at once, with a value that spells a placeholder of its own and columns that have the
names of keys for the numbers. -/
theorem select_sql_all_clauses :
    let d : Dialect := .ofFlavor .postgres
    let q : Query := {
      reach := .all
      source := .many [(some "author".toList, "users".toList), (none, "posts".toList)]
      fields := [.column "Posts.title as t".toList, .table "Author".toList ["id".toList]]
      conditions := .leaf ⟨"limit >=".toList, .one (.text ":7:30".toList)⟩ <|
        .group .or (.leaf ⟨"offset".toList, .many [.signed 1, .null]⟩ <|
          .leaf ⟨"name like".toList, .one (.text "it's".toList)⟩ .nil) .nil
      order := some (.by [("t".toList, .descending)])
      groups := ["id".toList]
      limit := some 5
      offset := some 10 }
    (∀ s ∈ q.texts, ':' ∉ s) ∧ (∀ c ∈ q.conditions.leaves, d.Suits c) ∧
      (∀ m ∈ q.counts, d.Quiet (.unsigned m)) ∧
      ∃ st, d.compile 0 (.select q) = (.ok st, 1) ∧
        (∃ source, d.flavor.source? q.source = some source ∧
          st.sql = d.selectText q source (q.limitText fun m => Text.natural m.toNat)) ∧
        (∀ key ∈ st.bindings.keys, ¬ placeholder key <:+: st.sql) ∧
        st.sql = ("SELECT \"Posts\".\"title\" AS \"t\", \"Author\".\"id\" FROM \"users\" AS \"Author\", " ++
          "\"posts\" AS \"Posts\" WHERE \"limit\" >= ':7:30' AND (\"offset\" IN (1, NULL) OR " ++
          "\"name\" LIKE 'it''s') ORDER BY \"t\" DESC GROUP BY \"id\" LIMIT 10,5").toList := by
  intro d q
  have hq : ∀ s ∈ q.texts, ':' ∉ s := by decide
  have hcs : ∀ c ∈ q.conditions.leaves, d.Suits c := by decide
  have hescape (m : UInt64) : d.escape (Text.natural m.toNat) = Text.natural m.toNat :=
    escape_of_isWordChar .postgres fun c hc => isWordChar_of_isDigit (Text.isDigit_of_mem_natural hc)
  have hw : ∀ m ∈ q.counts, d.Quiet (.unsigned m) := fun m _ => quiet_unsigned fun _ => hescape m
  obtain ⟨hselect, hdigits⟩ := select_sql d 0 hq hcs hw
  have hrun : d.compile 0 (.select q) = (.ok _, 1) := rfl
  obtain ⟨⟨source, hsource, hsql⟩, hkeys⟩ := hselect _ 1 hrun
  have hlit : (fun m => d.lit (.unsigned m)) = fun m => Text.natural m.toNat :=
    funext fun m => hdigits m fun _ => hescape m
  rw [hlit] at hsql
  obtain rfl := Option.some.inj (hsource.symm.trans (rfl : d.flavor.source? q.source = some _))
  refine ⟨hq, hcs, hw, _, hrun, ⟨_, hsource, hsql⟩, hkeys, hsql.trans ?_⟩
  rw [String.toList_append, String.toList_append]
  decide +kernel

/-- A dialect that escapes digits shows that the one row of a first row is escaped like any value. -/
theorem first_row_escaped :
    let d : Dialect := ⟨.mysql, fun s => '<' :: s ++ ['>'], true⟩
    let q : Query := ⟨.first, .one "t".toList, [], .nil, none, [], none, none⟩
    (∀ s ∈ q.texts, ':' ∉ s) ∧ (∀ c ∈ q.conditions.leaves, d.Suits c) ∧
      (∀ m ∈ q.counts, d.Quiet (.unsigned m)) ∧
      ∃ st source, d.compile 0 (.select q) = (.ok st, 1) ∧
        d.flavor.source? q.source = some source ∧
        st.sql ≠ d.selectText q source (q.limitText fun m => Text.natural m.toNat) := by
  intro d q
  have hw : ∀ m ∈ q.counts, d.Quiet (.unsigned m) := by
    intro m hm
    cases List.mem_singleton.mp hm
    decide
  refine ⟨by decide, by decide, hw, _, _, rfl, rfl, ?_⟩
  decide

end Dialect

end SqlForge
