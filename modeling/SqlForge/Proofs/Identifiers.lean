import SqlForge.Proofs.Words
import Mathlib.Data.Option.Basic
import Mathlib.Data.Prod.Basic

/-!
# Identifiers are told apart

A name is cut at its first point before its parts are put in marks. A qualifier holds no point and no
mark is one, so the first point of what is written is the point of the name: cutting what is written
gives the parts as they are written. Neither part is written like another, as a star that stays bare
is shorter than any text in marks.
-/

namespace SqlForge.Flavor

section
variable (f : Flavor)

theorem mark_ne_point : f.mark ≠ '.' := by cases f <;> decide

theorem point_not_mem_enclose {name : Text} (h : '.' ∉ name) : '.' ∉ f.enclose name := by
  intro hm
  rcases mem_enclose hm with e | hm
  · exact f.mark_ne_point e.symm
  · exact h hm

theorem enclose_injective : Function.Injective f.enclose := fun _ _ h =>
  List.append_cancel_right (List.cons.inj h).2

theorem length_enclose (name : Text) : (f.enclose name).length = name.length + 2 := by
  simp [enclose]

theorem enclose_ne_star (name : Text) : f.enclose name ≠ ['*'] := by
  intro h
  have hl := congrArg List.length h
  rw [f.length_enclose] at hl
  simp at hl

theorem member_injective : Function.Injective f.member := by
  intro x y h
  by_cases hx : x = ['*']
  · by_cases hy : y = ['*']
    · rw [hx, hy]
    · rw [hx, f.member_star, f.member_of_ne hy] at h
      exact absurd h.symm (f.enclose_ne_star y)
  · by_cases hy : y = ['*']
    · rw [hy, f.member_star, f.member_of_ne hx] at h
      exact absurd h (f.enclose_ne_star x)
    · rw [f.member_of_ne hx, f.member_of_ne hy] at h
      exact f.enclose_injective h

theorem single_injective (bare : Bool) : Function.Injective (f.single bare) := by
  cases bare with
  | true => exact fun _ _ h => h
  | false => exact f.enclose_injective

/-- The first point of what is written is the first point of the name. -/
theorem cut?_identifier (bare : Bool) (name : Text) :
    Text.cut? '.' (f.identifier bare name) =
      (Text.cut? '.' (Text.strip name)).map (Prod.map f.enclose f.member) := by
  rcases f.identifier_cases bare name with ⟨hpoint, hw⟩ | ⟨qualifier, member, hname, hq, hw⟩
  · rw [hw, Text.cut?_of_not_mem hpoint]
    apply Text.cut?_of_not_mem
    cases bare with
    | true => exact hpoint
    | false => exact f.point_not_mem_enclose hpoint
  · rw [hw, hname, Text.cut?_append hq]
    exact Text.cut?_append (f.point_not_mem_enclose hq) _

end

/-- **No two identifiers are written alike.** Whether names without a point are left bare or not, two
names are written the same exactly if they are the same without the blanks around them. -/
theorem identifier_eq_iff (f : Flavor) (bare : Bool) (x y : Text) :
    f.identifier bare x = f.identifier bare y ↔ Text.strip x = Text.strip y := by
  constructor
  · intro h
    have hcut := congrArg (Text.cut? '.') h
    rw [f.cut?_identifier, f.cut?_identifier] at hcut
    -- both names are cut into the same parts, or neither is cut
    have hparts : Text.cut? '.' (Text.strip x) = Text.cut? '.' (Text.strip y) :=
      Option.map_injective (Function.Injective.prodMap f.enclose_injective f.member_injective) hcut
    cases hx : Text.cut? '.' (Text.strip x) with
    | some parts => rw [Text.eq_of_cut? hx, Text.eq_of_cut? (hparts.symm.trans hx)]
    | none =>
      have hy := hparts.symm.trans hx
      rw [f.identifier_of_no_point bare (Text.not_mem_of_cut?_eq_none hx),
        f.identifier_of_no_point bare (Text.not_mem_of_cut?_eq_none hy)] at h
      exact f.single_injective bare h
  · intro h
    rw [identifier, identifier, h]

end SqlForge.Flavor
