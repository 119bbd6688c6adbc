import SqlForge.Proofs.Calls
import SqlForge.Proofs.Numerals
import Mathlib.Data.List.Forall2

/-!
# Calls that are put together again

Where the shortcut does not apply, nothing of a call is written as it was found but its name. What
stands between its brackets is cut at commas, whatever brackets and quotes it may hold, and each
piece becomes a literal, a whole number, or a name between marks. So a call stays within a small
grammar, as long as its text does not hold the mark itself.
-/

namespace SqlForge

/-! ## Where a call ends -/

namespace Call

/-- `s` is the call `c` with `rest` behind it: the bracket behind the arguments is the last one on the
line. -/
structure Heads (c : Call) (rest s : Text) : Prop where
  spelled : s = c.name ++ '(' :: (c.arguments ++ ')' :: rest)
  ne_nil : c.name ≠ []
  name : ∀ x ∈ c.name, isNameChar x = true
  line : '\n' ∉ c.arguments
  last : ')' ∉ rest.takeWhile (· != '\n')

theorem takeWhile_line {a : Text} (h : '\n' ∉ a) (s : Text) :
    (a ++ s).takeWhile (· != '\n') = a ++ s.takeWhile (· != '\n') := by
  apply List.takeWhile_append_of_pos
  intro c hc
  rw [bne_iff_ne]
  rintro rfl
  exact h hc

theorem read?_eq_some_iff_heads {s : Text} {c : Call} : read? s = some c ↔ ∃ rest, c.Heads rest s := by
  rw [read?_eq_some_iff]
  constructor
  · rintro ⟨hne, hname, rest, rfl, ha⟩
    obtain ⟨b, hb, hlast⟩ := Text.eq_of_beforeLast? ha
    have hline : '\n' ∉ rest.takeWhile (· != '\n') := fun h => by
      have := List.all_eq_true.mp List.all_takeWhile '\n' h
      cases this
    rw [hb, List.mem_append, List.mem_cons, not_or, not_or] at hline
    refine ⟨b ++ rest.dropWhile (· != '\n'), ?_, hne, hname, hline.1, ?_⟩
    · conv_lhs => rw [← List.takeWhile_append_dropWhile (p := (· != '\n')) (l := rest), hb]
      simp
    · -- behind the line stands its end, or nothing
      rw [takeWhile_line hline.2.2]
      cases hd : rest.dropWhile (· != '\n') with
      | nil => simpa using hlast
      | cons x t =>
        have hx := List.head?_dropWhile_not (· != '\n') rest
        rw [hd] at hx
        rw [List.takeWhile_cons_of_neg (by simpa using hx)]
        simpa using hlast
  · rintro ⟨rest, rfl, hne, hname, hline, hlast⟩
    refine ⟨hne, hname, _, rfl, ?_⟩
    rw [takeWhile_line hline, List.takeWhile_cons_of_pos (by decide)]
    exact Text.beforeLast?_append hlast _

end Call

/-! ## What a piece becomes -/

namespace Flavor

/-- The name `p` between marks that it does not hold: as a whole, as a qualifier and its member, or as a
qualifier with all its members. -/
inductive Named (f : Flavor) (p : Text) : Text → Prop
  | whole (hp : '.' ∉ p) (hm : f.mark ∉ p) : Named f p (f.enclose p)
  | member {q m : Text} (hp : p = q ++ '.' :: m) (hq : '.' ∉ q) (hm : f.mark ∉ p) (hs : m ≠ ['*']) :
      Named f p (f.enclose q ++ '.' :: f.enclose m)
  | all {q : Text} (hp : p = q ++ ".*".toList) (hq : '.' ∉ q) (hm : f.mark ∉ p) :
      Named f p (f.enclose q ++ ".*".toList)

/-- The piece `p` of a call as an argument in SQL: a literal of what is in its quotes, the whole part of
its number, or a name. -/
inductive Argument (f : Flavor) (p : Text) : Text → Prop
  | literal (hp : isQuoted p = true) (hb : LiteralBody f (f.escape (Text.trim (· == '\'') p))) :
      Argument f p (quoted (f.escape (Text.trim (· == '\'') p)))
  | number {n : Numeral} (hp : p = n.text) (hn : n.Proper) :
      Argument f p (Text.integer n.truncate.toInt)
  | name {a : Text} (hp : isQuoted p = false ∧ ¬ IsNumericLiteral p) (ha : f.Named p a) :
      Argument f p a

theorem named_quote (f : Flavor) {p : Text} (hp : Text.strip p = p) (hm : f.mark ∉ p) :
    f.Named p (f.quote p) := by
  rw [quote]
  rcases f.identifier_cases false p with ⟨h, hw⟩ | ⟨q, m, h, hq, hw⟩
  · rw [hp] at h hw
    rw [hw]
    exact .whole h hm
  · rw [hp] at h
    rw [hw]
    by_cases hs : m = ['*']
    · rw [hs, f.member_star]
      exact .all (h.trans (by rw [hs]; rfl)) hq hm
    · rw [f.member_of_ne hs]
      exact .member h hq hm hs

end Flavor

namespace Dialect

variable {d : Dialect} (hd : d.escape = d.flavor.escape)
include hd

theorem wholeArgument_text {n : Numeral} (hn : n.Proper) :
    d.wholeArgument n.text = Text.integer n.truncate.toInt := by
  rw [wholeArgument, wholeNumber, hd, hn.escape, hn.strip, Numeral.read?_eq_some_iff.mpr ⟨rfl, hn⟩]

theorem argument_of_strip {p : Text} (hp : Text.strip p = p) (hm : d.flavor.mark ∉ p) :
    d.flavor.Argument p (d.argument p) := by
  unfold argument
  by_cases hq : isQuoted p = true
  · have hb := LiteralBody.escape d.flavor (Text.trim (· == '\'') p)
    have ha := Flavor.Argument.literal hq hb
    rw [if_pos hq]
    dsimp only
    split
    · rename_i hn
      rw [List.isEmpty_iff.mp hn] at ha
      exact ha
    · rw [literal, hd]
      exact ha
  · rw [if_neg hq]
    have hnum : isNumeral p = true ↔ IsNumericLiteral p := by
      rw [isNumeral_iff, Text.trimStart_of_trim hp]
    by_cases hn : isNumeral p = true
    · obtain ⟨n, hproper, rfl⟩ := hnum.mp hn
      rw [if_pos hn, wholeArgument_text hd hproper]
      exact .number rfl hproper
    · rw [if_neg hn]
      exact .name ⟨Bool.eq_false_iff.mpr hq, mt hnum.mpr hn⟩ (d.flavor.named_quote hp hm)

theorem forall₂_arguments {s : Text} (hm : d.flavor.mark ∉ s) :
    List.Forall₂ (fun piece => d.flavor.Argument (Text.strip piece))
      ((s.splitOn ',').filter (!·.all Text.isBlank)) (d.arguments s) := by
  have hblank : (s.splitOn ',').filter (!·.all Text.isBlank) =
      (s.splitOn ',').filter ((!·.isEmpty) ∘ Text.strip) := by
    apply List.filter_congr
    intro t _
    rw [Function.comp_apply, Bool.not_inj_iff, Bool.eq_iff_iff, List.isEmpty_iff, Text.strip,
      Text.trim_eq_nil_iff, List.all_eq_true]
  rw [arguments, List.filter_map, List.map_map, List.forall₂_map_right_iff, hblank,
    List.forall₂_same]
  intro t ht
  have hts := (List.mem_filter.mp ht).1
  apply argument_of_strip hd (Text.trim_trim Text.isBlank t)
  exact fun h => hm (Text.mem_of_mem_splitOn hts (Text.mem_of_mem_trim h))

/-- **A call stays a call.** Its name is kept, the pieces between its brackets become its arguments in
their order, and what comes behind them is dropped, whatever that is. -/
theorem call_encoded {s : Text} (hcall : isCall s = true) (hbare : isBareCall s = false)
    (hmark : d.flavor.mark ∉ s) :
    ∃ c rest args, Call.Heads c rest s ∧ '(' ∉ c.name ∧
      d.call s = c.name ++ '(' :: (Text.join ", ".toList args ++ [')']) ∧
      List.Forall₂ (fun piece => d.flavor.Argument (Text.strip piece))
        ((c.arguments.splitOn ',').filter (!·.all Text.isBlank)) args ∧
      ∀ rest' s', c.Heads rest' s' → isBareCall s' = false → d.call s' = d.call s := by
  obtain ⟨c, hread⟩ := Option.isSome_iff_exists.mp hcall
  obtain ⟨rest, hc⟩ := Call.read?_eq_some_iff_heads.mp hread
  have harguments : d.flavor.mark ∉ c.arguments := fun h => hmark (by simp [hc.spelled, h])
  have hencoded : ∀ rest' s', c.Heads rest' s' → isBareCall s' = false →
      d.call s' = c.name ++ '(' :: (Text.join ", ".toList (d.arguments c.arguments) ++ [')']) := by
    intro rest' s' hc' hbare'
    rw [call, hbare', if_neg Bool.false_ne_true, Call.read?_eq_some_iff_heads.mpr ⟨rest', hc'⟩]
    simp
  refine ⟨c, rest, d.arguments c.arguments, hc, Call.paren_not_mem_name hc.name,
    hencoded rest s hc hbare, forall₂_arguments hd harguments, ?_⟩
  intro rest' s' hc' hbare'
  rw [hencoded rest' s' hc' hbare', hencoded rest s hc hbare]

omit hd in
/-- Brackets and commas in quotes, a number with an exponent, a blank piece, and brackets further on. -/
theorem call_encoded_hostile :
    let d : Dialect := ⟨.mysql, Flavor.mysql.escape, false⟩
    let s := "F_1(t.a.b, 'it's',-2.9E0 , ,t.*, '(1,)') --)\n)".toList
    isCall s = true ∧ isBareCall s = false ∧ d.flavor.mark ∉ s ∧
      ∃ args, d.call s = "F_1".toList ++ '(' :: (Text.join ", ".toList args ++ [')']) ∧
        List.Forall₂ d.flavor.Argument ["t.a.b".toList, "'it's'".toList, "-2.9E0".toList, "t.*".toList,
          "'(1".toList, ")') --".toList] args ∧
        d.call s = "F_1(`t`.`a.b`, 'it\\'s', -2, `t`.*, `'(1`, `)') --`)".toList := by
  intro d s
  have hcall : isCall s = true := by decide
  have hbare : isBareCall s = false := by decide +kernel
  have hmark : d.flavor.mark ∉ s := by decide
  obtain ⟨c, rest, args, hc, -, hsql, hargs, -⟩ := call_encoded (d := d) rfl hcall hbare hmark
  have hread : Call.read? s = some ⟨"F_1".toList, "t.a.b, 'it's',-2.9E0 , ,t.*, '(1,)') --".toList⟩ := by
    decide
  rw [Call.read?_eq_some_iff_heads.mpr ⟨rest, hc⟩] at hread
  cases hread
  have hpieces : (("t.a.b, 'it's',-2.9E0 , ,t.*, '(1,)') --".toList.splitOn ',').filter
      (!·.all Text.isBlank)).map Text.strip = ["t.a.b".toList, "'it's'".toList, "-2.9E0".toList,
        "t.*".toList, "'(1".toList, ")') --".toList] := by decide +kernel
  refine ⟨hcall, hbare, hmark, args, hsql, ?_, by decide +kernel⟩
  rw [← hpieces]
  exact List.forall₂_map_left_iff.mpr hargs

end Dialect

end SqlForge
