import Mathlib.Data.List.Forall2
import Mathlib.Data.List.Nodup
import Squishc.Js.Lower
import Squishc.Proofs.JsScope

/-!
# Emitted names

Every entity gets one name in the emitted program and keeps it, and no two
entities have names with the same text, since each name ends in a number of its
own.

Main results:

- Theorem `Name.text_injective`: different names have different texts.
- Theorem `Naming.Fit.labels_unique`: entities with the same text are the same.
- Theorem `Naming.grows_name`: giving a name keeps all names that were given.
-/

namespace Squishc.Js

/-! ## Texts of names -/

/-- A list is split at the last place of an item in one way only. -/
theorem append_cons_inj {α : Type} {c : α} {as as' bs bs' : List α}
    (h : as ++ c :: bs = as' ++ c :: bs') (hbs : c ∉ bs) (hbs' : c ∉ bs') :
    as = as' ∧ bs = bs' := by
  rcases List.append_eq_append_iff.mp h with ⟨more, rfl, hmore⟩ | ⟨more, rfl, hmore⟩
  · cases more with
    | nil => simpa using hmore
    | cons d rest =>
      rw [List.cons_append, List.cons.injEq] at hmore
      rw [hmore.2] at hbs
      simp at hbs
  · cases more with
    | nil => simpa [eq_comm] using hmore
    | cons d rest =>
      rw [List.cons_append, List.cons.injEq] at hmore
      rw [hmore.2] at hbs'
      simp at hbs'

theorem Name.toList_text (n : Name) :
    n.text.toList = n.base.toList ++ '_' :: Nat.toDigits 10 n.index := by
  simp [Name.text]

/-- Different names have different texts. -/
theorem Name.text_injective {m n : Name} (h : m.text = n.text) : m = n := by
  have hlist := congrArg String.toList h
  rw [Name.toList_text, Name.toList_text] at hlist
  rcases append_cons_inj hlist Nat.underscore_not_in_toDigits Nat.underscore_not_in_toDigits with
    ⟨hbase, hdigits⟩
  have hindex := congrArg (fun digits => Nat.ofDigitChars 10 digits 0) hdigits
  simp only [Nat.ofDigitChars_ten_toDigits] at hindex
  cases m
  cases n
  simp_all [String.toList_inj]

/-- No name has the text of the helper, since names end in a digit. -/
theorem Name.text_ne_helper (n : Name) : n.text ≠ "_iter" := by
  intro h
  have hlist : n.base.toList ++ '_' :: Nat.toDigits 10 n.index = ['_', 'i', 't', 'e'] ++ ['r'] := by
    rw [← Name.toList_text, h]
    rfl
  rcases List.eq_nil_or_concat (Nat.toDigits 10 n.index) with hnil | ⟨init, last, hdigits⟩
  · exact Nat.toDigits_ne_nil hnil
  · rw [hdigits, List.concat_eq_append, ← List.cons_append, ← List.append_assoc] at hlist
    have hlast : last = 'r' := by
      simpa using (List.append_inj' hlist rfl).2
    have hdigit : last.isDigit = true :=
      Nat.isDigit_of_mem_toDigits (b := 10) (by decide) (by decide) (by rw [hdigits]; simp)
    rw [hlast] at hdigit
    cases hdigit

/-! ## Namings -/

namespace Naming

/-- The final names of a naming include the names of an earlier one, and all others
have greater numbers. -/
structure Extends (n final : Naming) : Prop where
  names : ∃ more, final.names = n.names ++ more ∧ ∀ p ∈ more, n.count < p.2.index
  count : n.count ≤ final.count

/-- Each name of a naming has a number of its own among those that were used up. -/
structure Fit (n : Naming) : Prop where
  below : ∀ p ∈ n.names, p.2.index ≤ n.count
  distinct : (n.names.map fun p => p.2.index).Nodup

/-- An entity has a name with the given text. -/
def Labels (n : Naming) (e : Entity) (text : String) : Prop :=
  ∃ name, n.find? e = some name ∧ name.text = text

theorem Extends.refl (n : Naming) : n.Extends n :=
  ⟨⟨[], by simp, by simp⟩, Nat.le_refl _⟩

theorem Extends.trans {n m final : Naming} (h : n.Extends m) (h' : m.Extends final) :
    n.Extends final := by
  rcases h with ⟨⟨more, hmore, hgreater⟩, hcount⟩
  rcases h' with ⟨⟨last, hlast, hgreater'⟩, hcount'⟩
  refine ⟨⟨more ++ last, by rw [hlast, hmore, List.append_assoc], ?_⟩, Nat.le_trans hcount hcount'⟩
  intro p hp
  rcases List.mem_append.mp hp with hp | hp
  · exact hgreater p hp
  · exact Nat.lt_of_le_of_lt hcount (hgreater' p hp)

/-- An entity keeps its name. -/
theorem Extends.find? {n final : Naming} (h : n.Extends final) {e : Entity} {name : Name}
    (hname : n.find? e = some name) : final.find? e = some name := by
  rcases h.names with ⟨more, hmore, -⟩
  unfold Naming.find? at hname ⊢
  rw [hmore, List.find?_append]
  cases hfound : n.names.find? (fun known => known.1 = e) with
  | none => simp [hfound] at hname
  | some p => simpa [hfound] using hname

/-- An entity with a name stands in the list with it. -/
theorem mem_of_find? {n : Naming} {e : Entity} {name : Name} (h : n.find? e = some name) :
    (e, name) ∈ n.names := by
  rcases Option.map_eq_some_iff.mp h with ⟨p, hp, rfl⟩
  have hmem := List.mem_of_find?_eq_some hp
  have hentity : p.1 = e := by simpa using List.find?_some hp
  subst hentity
  exact hmem

theorem labels_functional {n : Naming} {e : Entity} {s t : String} (h : n.Labels e s)
    (h' : n.Labels e t) : s = t := by
  rcases h with ⟨name, hname, rfl⟩
  rcases h' with ⟨name', hname', rfl⟩
  rw [hname] at hname'
  cases hname'
  rfl

/-- Entities with the same text are the same. -/
theorem Fit.labels_unique {n : Naming} (h : n.Fit) {e f : Entity} {s : String}
    (he : n.Labels e s) (hf : n.Labels f s) : e = f := by
  rcases he with ⟨name, hname, rfl⟩
  rcases hf with ⟨name', hname', htext⟩
  have hsame := Name.text_injective htext
  subst hsame
  have hpair := List.inj_on_of_nodup_map h.distinct (mem_of_find? hname) (mem_of_find? hname') rfl
  exact congrArg Prod.fst hpair

theorem Fit.biUnique {n : Naming} (h : n.Fit) : Relator.BiUnique n.Labels :=
  ⟨fun _ _ _ he hf => h.labels_unique he hf, fun _ _ _ hs ht => labels_functional hs ht⟩

/-- The second naming comes out of the first by giving names. -/
structure Grows (n m : Naming) : Prop where
  extends_ : n.Extends m
  fit : n.Fit → m.Fit

theorem Grows.refl (n : Naming) : n.Grows n := ⟨.refl n, id⟩

theorem Grows.trans {n m k : Naming} (h : n.Grows m) (h' : m.Grows k) : n.Grows k :=
  ⟨h.extends_.trans h'.extends_, fun hfit => h'.fit (h.fit hfit)⟩

theorem fit_empty : Fit empty := ⟨by simp [empty], by simp [empty]⟩

theorem grows_fresh (n : Naming) (base : String) : n.Grows (n.fresh base).2 := by
  refine ⟨⟨⟨[], by simp [fresh], by simp⟩, Nat.le_succ _⟩, ?_⟩
  intro hfit
  exact ⟨fun p hp => Nat.le_succ_of_le (hfit.below p hp), hfit.distinct⟩

/-- A name that was only used up is not the name of an entity. -/
theorem fresh_unused {n final : Naming} (hfit : n.Fit) (base : String)
    (h : (n.fresh base).2.Extends final) :
    ∀ p ∈ final.names, p.2.index ≠ (n.fresh base).1.index := by
  intro p hp
  rcases h.names with ⟨more, hmore, hgreater⟩
  rw [hmore] at hp
  rcases List.mem_append.mp hp with hp | hp
  · have hbelow := hfit.below p hp
    simp only [fresh]
    omega
  · have habove := hgreater p hp
    simp only [fresh] at habove ⊢
    omega

theorem grows_name (n : Naming) (e : Entity) : n.Grows (n.name e).2 := by
  unfold name
  split
  · exact .refl n
  · refine ⟨⟨⟨[(e, (n.fresh e.name).1)], by simp [fresh], by simp [fresh]⟩, Nat.le_succ _⟩, ?_⟩
    intro hfit
    constructor
    · intro p hp
      rcases List.mem_append.mp hp with hp | hp
      · exact Nat.le_succ_of_le (hfit.below p hp)
      · rw [List.mem_singleton.mp hp]
        exact Nat.le_refl _
    · simp only [fresh, List.map_append, List.map_singleton]
      rw [List.nodup_append]
      refine ⟨hfit.distinct, by simp, ?_⟩
      intro i hi j hj
      rcases List.mem_map.mp hi with ⟨p, hp, rfl⟩
      have hbelow := hfit.below p hp
      rw [List.mem_singleton.mp hj]
      omega

theorem find?_name (n : Naming) (e : Entity) : (n.name e).2.find? e = some (n.name e).1 := by
  unfold name
  split
  · assumption
  · rename_i hnone
    have habsent : n.names.find? (fun known => known.1 = e) = none := by
      simpa [find?] using hnone
    simp [find?, fresh, habsent]

theorem grows_nameAll (n : Naming) (vs : List Variable) : n.Grows (n.nameAll vs).2 := by
  induction vs generalizing n with
  | nil => exact .refl n
  | cons v rest ih => exact (grows_name n (.var v)).trans (ih _)

theorem find?_nameAll {final : Naming} (n : Naming) (vs : List Variable)
    (h : (n.nameAll vs).2.Extends final) :
    List.Forall₂ (fun v name => final.find? (.var v) = some name) vs (n.nameAll vs).1 := by
  induction vs generalizing n with
  | nil => exact .nil
  | cons v rest ih =>
    refine .cons ?_ (ih _ h)
    exact ((grows_nameAll _ rest).extends_.trans h).find? (find?_name n (.var v))

end Naming

end Squishc.Js
