import Squishc.Proofs.ListingText
import Squishc.Proofs.WrappedProgram

/-!
# Instances of types

A type with `any` in it stands for many types, its instances, which have something in the
place of `any`.  The instances of a type are the types than which it is vaguer.

Two types go together if they have an instance in common.  Such types have a most general
common instance, and all others are instances of that one.  Going together is symmetric
but not transitive: an instance that the first two types share and one that the last two
share may be different instances of the type in the middle.  It is transitive where the
type in the middle is its only instance.

A type is told by its name, as the brackets show the depth and the rest is one of six
words.

Main results:

- Theorem `vaguer_iff_isInstance`: a type is vaguer than its instances.
- Theorem `vaguer_both_iff`: the common instances of two types are the instances of one.
- Theorem `compatible_iff_vaguer`: types that go together have a common instance.
- Theorem `compatible_trans_iff`: the types through which going together is transitive.
- Theorem `compatible_means_common_instance`: going together, sameness and names.
-/

namespace Squishc

namespace Ty

/-! ## Instances -/

/-- A type with another in the place of the unknown type.  An array has one element type,
so the unknown type occurs at most once. -/
def fill : Ty → Ty → Ty
  | any, replacement => replacement
  | array element, replacement => array (element.fill replacement)
  | t, _ => t

/-- The first type comes from the second by putting some type in the place of the unknown
type. -/
def IsInstance (t s : Ty) : Prop := ∃ replacement, s.fill replacement = t

theorem fill_any (s : Ty) : s.fill any = s := by
  induction s with
  | array element ih => exact congrArg array ih
  | _ => rfl

theorem vaguer_fill (s replacement : Ty) : s.Vaguer (s.fill replacement) := by
  induction s with
  | any => exact .unknown replacement
  | array element ih => exact .array ih
  | _ => exact .same _

/-- A type is vaguer than its instances and no others. -/
theorem vaguer_iff_isInstance {s t : Ty} : s.Vaguer t ↔ t.IsInstance s := by
  constructor
  · intro h
    induction h with
    | same t => exact ⟨any, fill_any t⟩
    | unknown t => exact ⟨t, rfl⟩
    | array _ ih =>
      obtain ⟨replacement, hfill⟩ := ih
      exact ⟨replacement, congrArg array hfill⟩
  · rintro ⟨replacement, rfl⟩
    exact vaguer_fill s replacement

/-- The instances of an array are the arrays of instances of its elements. -/
theorem vaguer_of_array_iff {s t : Ty} :
    (array s).Vaguer t ↔ ∃ element, t = array element ∧ s.Vaguer element := by
  constructor
  · intro h
    cases h with
    | same => exact ⟨s, rfl, .same s⟩
    | @array _ element h => exact ⟨element, rfl, h⟩
  · rintro ⟨element, rfl, h⟩
    exact .array h

/-! ## Common instances -/

/-- The most general common instance of two types. -/
def common? : Ty → Ty → Option Ty
  | any, b => some b
  | a, any => some a
  | array a, array b => (common? a b).map array
  | a, b => if a = b then some a else none

theorem isSome_common? (a b : Ty) : (common? a b).isSome = a.compatible b := by
  induction a generalizing b with
  | array element ih =>
    cases b with
    | array other => exact Option.isSome_map.trans (ih other)
    | _ => rfl
  | _ => cases b <;> rfl

/-- The common instances of two types are the instances of the most general one. -/
theorem vaguer_both_iff (a b t : Ty) :
    a.Vaguer t ∧ b.Vaguer t ↔ ∃ c, common? a b = some c ∧ c.Vaguer t := by
  fun_induction common? a b generalizing t with
  | case1 b => simp [Vaguer.unknown]
  | case2 a => simp [Vaguer.unknown]
  | case3 a b ih =>
    constructor
    · rintro ⟨hleft, hright⟩
      obtain ⟨element, rfl, ha⟩ := vaguer_of_array_iff.mp hleft
      obtain ⟨_, heq, hb⟩ := vaguer_of_array_iff.mp hright
      cases heq
      obtain ⟨c, hc, h⟩ := (ih element).mp ⟨ha, hb⟩
      exact ⟨array c, Option.map_eq_some_iff.mpr ⟨c, hc, rfl⟩, .array h⟩
    · rintro ⟨_, harray, hinstance⟩
      obtain ⟨c, hc, rfl⟩ := Option.map_eq_some_iff.mp harray
      obtain ⟨element, rfl, h⟩ := vaguer_of_array_iff.mp hinstance
      obtain ⟨ha, hb⟩ := (ih element).mpr ⟨c, hc, h⟩
      exact ⟨.array ha, .array hb⟩
  | case4 => simp
  | case5 a b hleft hright harrays hne =>
    -- Two different types, neither of them unknown, of which at most one is an array.
    refine iff_of_false ?_ (by simp)
    rintro ⟨ha, hb⟩
    cases ha with
    | unknown => exact hleft rfl
    | same =>
      cases hb with
      | unknown => exact hright rfl
      | same => exact hne rfl
      | array => exact harrays _ _ rfl rfl
    | array =>
      cases hb with
      | unknown => exact hright rfl
      | same | array => exact harrays _ _ rfl rfl

/-- Types go together if and only if they have a common instance. -/
theorem compatible_iff_vaguer {a b : Ty} :
    a.compatible b = true ↔ ∃ t, a.Vaguer t ∧ b.Vaguer t := by
  rw [← isSome_common?, Option.isSome_iff_exists]
  constructor
  · rintro ⟨c, hc⟩
    exact ⟨c, (vaguer_both_iff a b c).mpr ⟨c, hc, .same c⟩⟩
  · rintro ⟨t, ht⟩
    obtain ⟨c, hc, -⟩ := (vaguer_both_iff a b t).mp ht
    exact ⟨c, hc⟩

/-! ## Going through a third type -/

/-- Whether the unknown type occurs in a type. -/
def hasAny : Ty → Bool
  | any => true
  | array element => element.hasAny
  | _ => false

/-- A type without the unknown type is its only instance. -/
theorem Vaguer.eq_of_hasAny {s t : Ty} (h : s.Vaguer t) (hs : s.hasAny = false) : t = s := by
  induction h with
  | same => rfl
  | unknown => cases hs
  | array _ ih => exact congrArg Ty.array (ih hs)

/-- Whether two instances of a type go together is up to what was put in. -/
theorem compatible_fill {s : Ty} (hs : s.hasAny = true) (t u : Ty) :
    (s.fill t).compatible (s.fill u) = t.compatible u := by
  induction s with
  | any => rfl
  | array element ih => exact ih hs
  | _ => cases hs

/-- What goes with a type also goes with all that the type goes with, if and only if the
unknown type does not occur in it. -/
theorem compatible_trans_iff (b : Ty) :
    (∀ a c : Ty, a.compatible b = true → b.compatible c = true → a.compatible c = true) ↔
      b.hasAny = false := by
  constructor
  · intro htrans
    by_contra hany
    rw [Bool.not_eq_false] at hany
    have hint : (b.fill int).compatible b = true :=
      compatible_iff_vaguer.mpr ⟨b.fill int, .same _, vaguer_fill b int⟩
    have hstring : b.compatible (b.fill string) = true :=
      compatible_iff_vaguer.mpr ⟨b.fill string, vaguer_fill b string, .same _⟩
    have hclash := htrans _ _ hint hstring
    rw [compatible_fill hany] at hclash
    cases hclash
  · intro hknown a c hab hbc
    obtain ⟨t, hat, hbt⟩ := compatible_iff_vaguer.mp hab
    obtain ⟨u, hbu, hcu⟩ := compatible_iff_vaguer.mp hbc
    rw [hbt.eq_of_hasAny hknown] at hat
    rw [hbu.eq_of_hasAny hknown] at hcu
    exact compatible_iff_vaguer.mpr ⟨b, hat, hcu⟩

example : int.compatible any = true ∧ any.compatible string = true ∧
    int.compatible string = false := by decide

/-! ## Going together, sameness and names -/

/-- Two types go together if and only if they have a common instance.  They are the same
if and only if they are equal, and then and only then have they the same name. -/
theorem compatible_means_common_instance (a b : Ty) :
    (a.compatible b = true ↔ ∃ t : Ty, t.IsInstance a ∧ t.IsInstance b) ∧
      (a.same b = true ↔ a = b) ∧ (a = b ↔ a.name = b.name) := by
  refine ⟨?_, same_iff_eq, congrArg name, name_injective⟩
  simp only [compatible_iff_vaguer, vaguer_iff_isInstance]

end Ty

end Squishc
