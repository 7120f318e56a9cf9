import Squishc.Proofs.LoweredTree
import Squishc.Proofs.OptimizeScope

/-!
# Scopes of emitted programs

An emitted program declares in a block the names of the entities that the tree
binds there, and raises to the function around it those that the tree raises.  So
the scopes of the tree carry over: names are used behind their declarations, and
no block declares a name twice.

Main results:

- Theorem `Lowered.places`: what a statement and its program declare.
- Theorem `Lowered.boundAll`: the program of a scoped statement is bound.
- Theorem `Lowered.clearAll`: the program of a clear statement has no clashes.
- Theorem `wellBound_of_lowered`: scoped and clear trees have well bound programs.
-/

namespace Squishc.Js

/-! ## Declared names -/

/-- The names that some statements declare are those of the entities that a tree
binds to its block or raises out of it. -/
structure Places (final : Naming) (bound raised : List Entity) (js : List Stmt) : Prop where
  bound : List.Forall₂ final.Labels bound (blockNamesAll js)
  raised : List.Forall₂ final.Labels raised (varNamesAll js)

namespace Places

variable {final : Naming} {bound raised bound' raised' : List Entity} {js js' : List Stmt}

theorem none : Places final [] [] [] := ⟨.nil, .nil⟩

theorem append (h : Places final bound raised js) (h' : Places final bound' raised' js') :
    Places final (bound ++ bound') (raised ++ raised') (js ++ js') := by
  constructor
  · rw [blockNamesAll_append]
    exact List.rel_append h.bound h'.bound
  · rw [varNamesAll_append]
    exact List.rel_append h.raised h'.raised

/-- A statement with blocks inside declares nothing in its own block. -/
theorem inner {s : Stmt} (hblock : s.blockNames = [])
    (hraised : List.Forall₂ final.Labels raised s.varNames) : Places final [] raised [s] := by
  constructor
  · rw [blockNamesAll, hblock]
    exact .nil
  · rw [varNamesAll, varNamesAll, List.append_nil]
    exact hraised

end Places

theorem ItemLoop.blockNames {final : Naming} {item : Name} {collection : Expr} {body : List Stmt}
    {loop : Stmt} (h : ItemLoop final item collection body loop) : loop.blockNames = [] := by
  cases h <;> rfl

theorem ItemLoop.varNames {final : Naming} {item : Name} {collection : Expr} {body : List Stmt}
    {loop : Stmt} (h : ItemLoop final item collection body loop) :
    loop.varNames = varNamesAll body := by
  cases h <;> rfl

/-- The program of an assignment declares nothing. -/
theorem Lowered.places_assignment {final : Naming} {inBranch : Bool} {n : Node} {js : List Stmt}
    (h : Lowered final inBranch n js) (hassign : n.isAssignment = true) :
    Places final [] [] js := by
  cases h with
  | assign => exact ⟨.nil, .nil⟩
  | _ => cases hassign

mutual

/-- A statement and its program declare the same. -/
theorem Lowered.places {final : Naming} : ∀ {inBranch : Bool} {n : Node} {js : List Stmt},
    Lowered final inBranch n js → Places final (n.bound inBranch) (n.raised inBranch) js
  | _, _, _, .print _ | _, _, _, .assign _ _ | _, _, _, .call _ _ | _, _, _, .exit
  | _, _, _, .ret _ | _, _, _, .shortRet => ⟨.nil, .nil⟩
  | true, _, _, .declare _ hname => ⟨.nil, .cons ⟨_, hname, rfl⟩ .nil⟩
  | false, _, _, .declare _ hname => ⟨.cons ⟨_, hname, rfl⟩ .nil, .nil⟩
  | true, _, _, .define hname _ _ => ⟨.nil, .cons ⟨_, hname, rfl⟩ .nil⟩
  | false, _, _, .define hname _ _ => ⟨.cons ⟨_, hname, rfl⟩ .nil, .nil⟩
  | _, _, _, .shortIf _ hbody => by
    apply Places.inner rfl
    simpa [Node.raised, Stmt.varNames, Else.varNames] using hbody.places.raised
  | _, _, _, .ifElse _ hbody hrest => by
    apply Places.inner rfl
    exact List.rel_append hbody.places.raised hrest.labels
  | _, _, _, .whileLoop _ hbody => .inner rfl hbody.places.raised
  | _, _, _, .unrolled _ hheader hbody => by
    simpa [Node.bound, Node.raised] using hheader.places.append hbody.places
  | _, _, _, .rolled _ hheader _ hbody hassign hlast => by
    have hloop := (hbody.places.append (hlast.places_assignment hassign)).raised
    rw [List.append_nil] at hloop
    exact hheader.places.append (Places.inner rfl hloop)
  | _, _, _, .forEach _ _ hbody hloop => by
    apply Places.inner hloop.blockNames
    rw [hloop.varNames]
    exact hbody.places.raised

theorem LoweredElse.labels {final : Naming} : ∀ {n : Node} {rest : Else},
    LoweredElse final n rest → List.Forall₂ final.Labels (n.raised true) rest.varNames
  | _, _, .shortIf _ hbody => by
    simpa [Node.raised, Else.varNames] using hbody.places.raised
  | _, _, .ifElse _ hbody hrest => List.rel_append hbody.places.raised hrest.labels
  | _, _, .list hbody => hbody.places.raised

theorem LoweredAll.places {final : Naming} : ∀ {inBranch : Bool} {ns : List Node} {js : List Stmt},
    LoweredAll final inBranch ns js →
      Places final (Node.boundAll inBranch ns) (Node.raisedAll inBranch ns) js
  | _, _, _, .nil => .none
  | _, _, _, .cons h hrest => h.places.append hrest.places

end

/-! ## Use behind declaration -/

/-- All names that some entities have are among the given ones. -/
def Covers (final : Naming) (known : List Entity) (names : List String) : Prop :=
  ∀ e ∈ known, ∀ name, final.Labels e name → name ∈ names

namespace Covers

variable {final : Naming} {known more : List Entity} {names others : List String}

theorem append (h : Covers final known names) (h' : Covers final more others) :
    Covers final (known ++ more) (names ++ others) := by
  intro e he name hlabel
  rw [List.mem_append] at he ⊢
  exact he.imp (fun he => h e he name hlabel) (fun he => h' e he name hlabel)

/-- Entities are covered by their own names. -/
theorem of_labels (h : List.Forall₂ final.Labels known names) : Covers final known names := by
  induction h with
  | nil =>
    intro e he
    cases he
  | cons hlabel _ ih =>
    intro e he name hname
    rw [List.mem_cons] at he
    rcases he with rfl | he
    · rw [Naming.labels_functional hname hlabel]
      exact List.mem_cons_self
    · exact List.mem_cons_of_mem _ (ih e he name hname)

theorem spells (h : Covers final known names) {entities : List Entity} {used : List String}
    (hspells : Spells final entities used) (hentities : entities ⊆ known) : used ⊆ names := by
  intro name hname
  rcases hspells.sound name hname with ⟨e, he, hlabel⟩
  exact h e (hentities he) name hlabel

theorem mem (h : Covers final known names) {e : Entity} {name : Name} (he : e ∈ known)
    (hname : final.find? e = some name) : name.text ∈ names :=
  h e he name.text ⟨name, hname, rfl⟩

end Covers

/-- What a statement makes known behind it is declared by its program. -/
theorem Lowered.covers {final : Naming} {inBranch : Bool} {n : Node} {js : List Stmt}
    (h : Lowered final inBranch n js) :
    Covers final n.exports (blockNamesAll js ++ varNamesAll js) := by
  intro e he name hlabel
  have hplaces := h.places
  rw [List.mem_append]
  rcases Node.exports_subset inBranch n e he with he | he
  · exact .inl (Covers.of_labels hplaces.bound e he name hlabel)
  · exact .inr (Covers.of_labels hplaces.raised e he name hlabel)

/-- What the statements of a branch make known behind it is declared by the `var`s of
its program. -/
theorem LoweredAll.covers {final : Naming} {ns : List Node} {js : List Stmt}
    (h : LoweredAll final true ns js) : Covers final (Node.exportsAll ns) (varNamesAll js) := by
  intro e he name hlabel
  exact Covers.of_labels h.places.raised e (Node.exportsAll_subset_raised ns e he) name hlabel

theorem ItemLoop.bound {final : Naming} {item : Name} {collection : Expr} {body : List Stmt}
    {loop : Stmt} (h : ItemLoop final item collection body loop) {names : List String}
    (hcollection : collection.names ⊆ names) (hbody : BoundAll (names ++ [item.text]) body) :
    loop.Bound names := by
  cases h with
  | countUp => exact ⟨hcollection, hbody⟩
  | forOf => exact ⟨hcollection, hbody⟩
  | countTo =>
    refine ⟨hcollection, hbody.mono ?_⟩
    intro name hname
    simp only [List.mem_append, List.mem_cons] at hname ⊢
    tauto

theorem labels_params {final : Naming} {vs : List Variable} {params : List Name}
    (h : List.Forall₂ (fun v param => final.find? (.var v) = some param) vs params) :
    List.Forall₂ final.Labels (vs.map .var) (params.map Name.text) := by
  rw [List.forall₂_map_left_iff, List.forall₂_map_right_iff]
  exact h.imp fun _ param hparam => ⟨param, hparam, rfl⟩

mutual

/-- The program of a scoped statement is bound. -/
theorem Lowered.boundAll {final : Naming} : ∀ {inBranch : Bool} {n : Node} {js : List Stmt}
    {known : List Entity} {names : List String}, Lowered final inBranch n js →
      Covers final known names → n.Scoped known → BoundAll names js
  | _, _, _, _, _, .print he, hcovers, h => ⟨hcovers.spells he h, trivial⟩
  | _, _, _, _, _, .declare he _, hcovers, h => ⟨hcovers.spells he h, trivial⟩
  | _, _, _, _, _, .assign hname he, hcovers, h =>
    ⟨⟨hcovers.mem h.1 hname, hcovers.spells he h.2⟩, trivial⟩
  | _, _, _, _, _, .shortIf ht hbody, hcovers, h =>
    ⟨⟨hcovers.spells ht h.1, hbody.boundAll hcovers h.2, trivial⟩, trivial⟩
  | _, _, _, _, _, .ifElse ht hbody hrest, hcovers, h =>
    ⟨⟨hcovers.spells ht h.1, hbody.boundAll hcovers h.2.1,
      hrest.bound (hcovers.append hbody.covers) h.2.2⟩, trivial⟩
  | _, _, _, _, _, .whileLoop ht hbody, hcovers, h =>
    ⟨⟨hcovers.spells ht h.1, hbody.boundAll hcovers h.2⟩, trivial⟩
  | _, _, _, _, _, .unrolled _ hheader hbody, hcovers, h => by
    rw [boundAll_append]
    exact ⟨hheader.boundAll hcovers h.1, hbody.boundAll (hcovers.append hheader.covers) h.2.2.2⟩
  | _, _, _, _, _, .rolled _ hheader ht hbody _ hlast, hcovers, h => by
    have hinside := hcovers.append hheader.covers
    rw [boundAll_append]
    refine ⟨hheader.boundAll hcovers h.1, ⟨hinside.spells ht h.2.1, ?_⟩, trivial⟩
    rw [boundAll_append]
    exact ⟨hbody.boundAll hinside h.2.2.2,
      (hlast.boundAll hinside h.2.2.1).mono (List.subset_append_left _ _)⟩
  | _, _, _, _, _, .forEach hitem he hbody hloop, hcovers, h => by
    have hheader := hcovers.append (Covers.of_labels (.cons ⟨_, hitem, rfl⟩ .nil))
    exact ⟨hloop.bound (hcovers.spells he h.1) (hbody.boundAll hheader h.2), trivial⟩
  | _, _, _, _, _, .define hname hparams hbody, hcovers, h => by
    have hheader :=
      hcovers.append (Covers.of_labels (.cons ⟨_, hname, rfl⟩ (labels_params hparams)))
    exact ⟨hbody.boundAll hheader h, trivial⟩
  | _, _, _, _, _, .call hname hargs, hcovers, h =>
    ⟨⟨hcovers.mem h.1 hname, hcovers.spells hargs h.2⟩, trivial⟩
  | _, _, _, _, _, .ret he, hcovers, h => ⟨hcovers.spells he h, trivial⟩
  | _, _, _, _, _, .exit, _, _ => ⟨trivial, trivial⟩
  | _, _, _, _, _, .shortRet, _, _ => ⟨trivial, trivial⟩

theorem LoweredElse.bound {final : Naming} : ∀ {n : Node} {rest : Else} {known : List Entity}
    {names : List String}, LoweredElse final n rest →
      Covers final known names → n.Scoped known → rest.Bound names
  | _, _, _, _, .shortIf ht hbody, hcovers, h =>
    ⟨hcovers.spells ht h.1, hbody.boundAll hcovers h.2, trivial⟩
  | _, _, _, _, .ifElse ht hbody hrest, hcovers, h =>
    ⟨hcovers.spells ht h.1, hbody.boundAll hcovers h.2.1,
      hrest.bound (hcovers.append hbody.covers) h.2.2⟩
  | _, _, _, _, .list hbody, hcovers, h => hbody.boundAll hcovers h

theorem LoweredAll.boundAll {final : Naming} : ∀ {inBranch : Bool} {ns : List Node}
    {js : List Stmt} {known : List Entity} {names : List String}, LoweredAll final inBranch ns js →
      Covers final known names → Node.ScopedAll known ns → BoundAll names js
  | _, _, _, _, _, .nil, _, _ => trivial
  | _, _, _, _, _, .cons hfirst hrest, hcovers, h => by
    rw [boundAll_append]
    exact ⟨hfirst.boundAll hcovers h.1, hrest.boundAll (hcovers.append hfirst.covers) h.2⟩

end

/-! ## Clashes -/

section Clashes

variable {final : Naming} {entities others : List Entity} {names otherNames : List String}

theorem exists_labels (h : List.Forall₂ final.Labels entities names) {name : String}
    (hname : name ∈ names) : ∃ e ∈ entities, final.Labels e name := by
  induction h with
  | nil => cases hname
  | cons hlabel _ ih =>
    rcases List.mem_cons.mp hname with rfl | hname
    · exact ⟨_, List.mem_cons_self, hlabel⟩
    · rcases ih hname with ⟨e, he, hlabel⟩
      exact ⟨e, List.mem_cons_of_mem _ he, hlabel⟩

/-- Entities that are different have different names. -/
theorem not_mem_of_labels (hfit : final.Fit) (h : List.Forall₂ final.Labels entities names)
    {e : Entity} {name : String} (hname : final.Labels e name) (he : e ∉ entities) :
    name ∉ names := by
  intro hmem
  rcases exists_labels h hmem with ⟨f, hf, hlabel⟩
  rw [hfit.labels_unique hname hlabel] at he
  exact he hf

/-- The text of a name that no entity has is not among the names of entities. -/
theorem not_mem_of_unused (h : List.Forall₂ final.Labels entities names) {name : Name}
    (hunused : ∀ p ∈ final.names, p.2.index ≠ name.index) : name.text ∉ names := by
  intro hmem
  rcases exists_labels h hmem with ⟨e, -, known, hknown, htext⟩
  have hsame : known = name := Name.text_injective htext
  subst hsame
  exact hunused _ (Naming.mem_of_find? hknown) rfl

theorem helper_not_mem (h : List.Forall₂ final.Labels entities names) : "_iter" ∉ names := by
  intro hmem
  rcases exists_labels h hmem with ⟨e, -, known, -, htext⟩
  exact Name.text_ne_helper known htext

/-- Names are apart if their entities are. -/
theorem apart_of_labels (hfit : final.Fit) (h : List.Forall₂ final.Labels entities names)
    (h' : List.Forall₂ final.Labels others otherNames) (hapart : ∀ e ∈ entities, e ∉ others) :
    ∀ name ∈ names, name ∉ otherNames := by
  intro name hname
  rcases exists_labels h hname with ⟨e, he, hlabel⟩
  exact not_mem_of_labels hfit h' hlabel (hapart e he)

theorem Places.distinct (hfit : final.Fit) {body : List Node} {js : List Stmt}
    (h : Places final (Node.boundAll false body) (Node.raisedAll false body) js)
    (hapart : Node.Apart body) : Distinct js := by
  constructor
  · exact (List.rel_nodup hfit.biUnique h.bound).mp hapart.1
  · exact apart_of_labels hfit h.bound h.raised hapart.2

/-- The block of a branch declares nothing itself. -/
theorem LoweredAll.distinct_branch {body : List Node} {js : List Stmt}
    (h : LoweredAll final true body js) : Distinct js := by
  have hbound := h.places.bound
  rw [Node.boundAll_true, List.forall₂_nil_left_iff] at hbound
  constructor
  · rw [hbound]
    exact List.nodup_nil
  · intro name hname
    rw [hbound] at hname
    cases hname

theorem ItemLoop.clear {item : Name} {collection : Expr} {js : List Stmt} {loop : Stmt}
    (h : ItemLoop final item collection js loop) (hfit : final.Fit) {e : Entity}
    (hitem : final.find? e = some item) {raised : List Entity}
    (hraised : List.Forall₂ final.Labels raised (varNamesAll js)) (he : e ∉ raised)
    (hdistinct : Distinct js) (hclear : ClearAll js) : loop.Clear := by
  have hnotMem : item.text ∉ varNamesAll js :=
    not_mem_of_labels hfit hraised ⟨item, hitem, rfl⟩ he
  have hheader : DistinctHeader [item] js := ⟨by simp, by simpa using hnotMem⟩
  cases h with
  | countUp => exact ⟨hheader, hdistinct, hclear⟩
  | forOf => exact ⟨hheader, hdistinct, hclear⟩
  | @countTo limit hunused =>
    have hlimit : limit.text ∉ varNamesAll js := not_mem_of_unused hraised hunused
    have hdiffer : item.text ≠ limit.text := by
      intro htext
      rw [Name.text_injective htext] at hitem
      exact hunused _ (Naming.mem_of_find? hitem) rfl
    exact ⟨⟨by simpa using hdiffer, by simpa using ⟨hnotMem, hlimit⟩⟩, hdistinct, hclear⟩

theorem distinctParams_of_labels (hfit : final.Fit) {vs : List Variable} {params : List Name}
    {bound : List Entity} {js : List Stmt}
    (hparams : List.Forall₂ (fun v param => final.find? (.var v) = some param) vs params)
    (hbound : List.Forall₂ final.Labels bound (blockNamesAll js)) (hnodup : vs.Nodup)
    (hapart : ∀ v ∈ vs, Entity.var v ∉ bound) : DistinctParams params js := by
  have hlabels := labels_params hparams
  constructor
  · refine (List.rel_nodup hfit.biUnique hlabels).mp (hnodup.map ?_)
    intro v w hsame
    exact Entity.var.inj hsame
  · exact apart_of_labels hfit hlabels hbound (by simpa using hapart)

end Clashes

/-- The parts of the header of a loop have no blocks. -/
theorem Lowered.clearAll_header {final : Naming} {inBranch : Bool} {n : Node} {js : List Stmt}
    (h : Lowered final inBranch n js) (hkind : n.isDeclaration = true ∨ n.isAssignment = true) :
    ClearAll js := by
  cases h with
  | declare => exact ⟨trivial, trivial⟩
  | assign => exact ⟨trivial, trivial⟩
  | _ => rcases hkind with hkind | hkind <;> cases hkind

mutual

/-- The program of a clear statement has no clashes. -/
theorem Lowered.clearAll {final : Naming} (hfit : final.Fit) : ∀ {inBranch : Bool} {n : Node}
    {js : List Stmt}, Lowered final inBranch n js → n.Clear inBranch → ClearAll js
  | _, _, _, .print _, _ | _, _, _, .declare _ _, _ | _, _, _, .assign _ _, _
  | _, _, _, .call _ _, _ | _, _, _, .ret _, _ | _, _, _, .exit, _ | _, _, _, .shortRet, _ =>
    ⟨trivial, trivial⟩
  | _, _, _, .shortIf _ hbody, h =>
    ⟨⟨hbody.distinct_branch, hbody.clearAll hfit h, trivial⟩, trivial⟩
  | _, _, _, .ifElse _ hbody hrest, h =>
    ⟨⟨hbody.distinct_branch, hbody.clearAll hfit h.1, hrest.clear hfit h.2⟩, trivial⟩
  | _, _, _, .whileLoop _ hbody, h =>
    ⟨⟨hbody.places.distinct hfit h.1, hbody.clearAll hfit h.2⟩, trivial⟩
  | _, _, _, .unrolled hdeclares hheader hbody, h => by
    rw [clearAll_append]
    exact ⟨hheader.clearAll_header (.inl hdeclares), hbody.clearAll hfit h⟩
  | _, _, _, .rolled hdeclares hheader _ hbody hassign hlast, h => by
    have hplaces := hbody.places.append (hlast.places_assignment hassign)
    rw [List.append_nil, List.append_nil] at hplaces
    have hinside : ClearAll (_ ++ _) := (clearAll_append _ _).mpr
      ⟨hbody.clearAll hfit h.2, hlast.clearAll_header (.inr hassign)⟩
    rw [clearAll_append]
    exact ⟨hheader.clearAll_header (.inl hdeclares), ⟨hplaces.distinct hfit h.1, hinside⟩, trivial⟩
  | _, _, _, .forEach hitem _ hbody hloop, h =>
    ⟨hloop.clear hfit hitem hbody.places.raised h.1 (hbody.places.distinct hfit h.2.1)
      (hbody.clearAll hfit h.2.2), trivial⟩
  | _, _, _, .define _ hparams hbody, h =>
    ⟨⟨distinctParams_of_labels hfit hparams hbody.places.bound h.1 h.2.1,
      hbody.places.distinct hfit h.2.2.1, hbody.clearAll hfit h.2.2.2⟩, trivial⟩

theorem LoweredElse.clear {final : Naming} (hfit : final.Fit) : ∀ {n : Node} {rest : Else},
    LoweredElse final n rest → n.Clear true → rest.Clear
  | _, _, .shortIf _ hbody, h => ⟨hbody.distinct_branch, hbody.clearAll hfit h, trivial⟩
  | _, _, .ifElse _ hbody hrest, h =>
    ⟨hbody.distinct_branch, hbody.clearAll hfit h.1, hrest.clear hfit h.2⟩
  | _, _, .list hbody, h => ⟨hbody.distinct_branch, hbody.clearAll hfit h⟩

theorem LoweredAll.clearAll {final : Naming} (hfit : final.Fit) : ∀ {inBranch : Bool}
    {ns : List Node} {js : List Stmt}, LoweredAll final inBranch ns js →
      Node.ClearAll inBranch ns → ClearAll js
  | _, _, _, .nil, _ => trivial
  | _, _, _, .cons hfirst hrest, h => by
    rw [clearAll_append]
    exact ⟨hfirst.clearAll hfit h.1, hrest.clearAll hfit h.2⟩

end

/-- Scoped statements without clashes have well bound programs. -/
theorem wellBound_of_lowered {final : Naming} (hfit : final.Fit) {ns : List Node} {js : List Stmt}
    (h : LoweredAll final false ns js) (hscoped : Node.ScopedAll [] ns)
    (hapart : Node.Apart ns) (hclear : Node.ClearAll false ns) : WellBound js := by
  have hdistinct := h.places.distinct hfit hapart
  have hblock := helper_not_mem h.places.bound
  have hraised := helper_not_mem h.places.raised
  constructor
  · apply h.boundAll _ hscoped
    intro e he
    cases he
  · unfold scriptNames
    split
    · rw [List.nodup_append]
      refine ⟨hdistinct.1, by simp, ?_⟩
      intro name hname other hother
      rw [List.mem_singleton.mp hother]
      rintro rfl
      exact hblock hname
    · rw [List.append_nil]
      exact hdistinct.1
  · intro name hname
    rcases List.mem_append.mp hname with hname | hname
    · exact hdistinct.2 name hname
    · split at hname
      · rw [List.mem_singleton.mp hname]
        exact hraised
      · cases hname
  · exact h.clearAll hfit hclear

/-! ## Programs of accepted trees -/

/-- An emitted program stands for some statements: its names are those of the
entities of the statements, no two entities share a name, and every name is used
in the scope of its declaration and declared without a clash. -/
structure Faithful (statements : List Node) (e : Emitted) : Prop where
  lowered : LoweredAll e.naming false statements e.program
  unique : ∀ a b name, e.naming.Labels a name → e.naming.Labels b name → a = b
  wellBound : WellBound e.program

/-- Scoped statements without clashes have programs that stand for them, unless a
number is too long to be written. -/
theorem faithful_emit {ns : List Node} (hform : Node.allFormed ns = true)
    (hscoped : Node.ScopedAll [] ns) (hapart : Node.Apart ns) (hclear : Node.ClearAll false ns) :
    emit ns = .error .digitLimit ∨ ∃ e, emit ns = .ok e ∧ Faithful ns e := by
  rcases emit_lowered hform with hlimit | ⟨e, hemit, hfit, hlowered⟩
  · exact .inl hlimit
  · refine .inr ⟨e, hemit, hlowered, ?_, wellBound_of_lowered hfit hlowered hscoped hapart hclear⟩
    intro a b name ha hb
    exact hfit.labels_unique ha hb

end Squishc.Js

namespace Squishc

theorem generate_eq {tree : Node} {e : Js.Emitted} (h : Js.emit tree.toStatements = .ok e) :
    generate tree = .ok (Js.programText e.program) := by
  simp [generate, Js.generate, h, Except.map, Except.mapError]

theorem generate_digitLimit {tree : Node} (h : Js.emit tree.toStatements = .error .digitLimit) :
    generate tree = .error .digitLimit := by
  simp [generate, Js.generate, h, Except.map, Except.mapError, Failure.ofEmit]

/-- The program of an accepted tree, optimized or not, binds every name as it was
resolved. -/
theorem emission_binds_as_resolved {p : Surface.Program} {t : Node} (h : resolve p = .ok t) :
    optimize t = .ok t.optimize ∧
    ∀ tree ∈ [t, t.optimize],
      generate tree = .error .digitLimit ∨
      ∃ e, Js.emit tree.toStatements = .ok e ∧ generate tree = .ok (Js.programText e.program) ∧
        Js.Faithful tree.toStatements e := by
  rcases resolve_settled h with ⟨nodes, rfl, hform, hscoped, hnodup⟩
  have hapart := Node.apart_of_nodup hnodup
  have hclear := Node.clearAll_of_nodup false nodes hnodup
  have hreplaces := Node.replaces_optimizeStmts nodes hform
  constructor
  · unfold optimize
    rw [show (Node.program nodes).obstacle? = none from Node.anyObstacle?_of_allFormed hform]
  · intro tree htree
    have hemit : Js.emit tree.toStatements = .error .digitLimit ∨
        ∃ e, Js.emit tree.toStatements = .ok e ∧ Js.Faithful tree.toStatements e := by
      simp only [List.mem_cons, List.not_mem_nil, or_false] at htree
      rcases htree with rfl | rfl
      · exact Js.faithful_emit hform hscoped hapart hclear
      · rw [Node.optimize_program]
        exact Js.faithful_emit hreplaces.formed (hreplaces.inScope [] hscoped)
          (hreplaces.apart hapart) (hreplaces.clear false hclear)
    rcases hemit with hlimit | ⟨e, hemit, hfaithful⟩
    · exact .inl (generate_digitLimit hlimit)
    · exact .inr ⟨e, hemit, generate_eq hemit, hfaithful⟩

/-- A declaration in a branch whose name is used behind it, a loop that is unrolled,
a loop over a variable, and a function. -/
def leakingBranch : Surface.Program :=
  ⟨[.branch ⟨1, 1⟩ (.bool ⟨1, 4⟩ true) [.declare ⟨⟨1, 10⟩, "m", .int ⟨1, 21⟩ 3⟩] .absent,
    .forLoop ⟨2, 1⟩ ⟨⟨2, 5⟩, "i", .int ⟨2, 16⟩ 0⟩
      (.binary ⟨2, 24⟩ .lt (.var ⟨2, 24⟩ "i") (.int ⟨2, 28⟩ 2))
      ⟨⟨2, 38⟩, "i", .binary ⟨2, 42⟩ .add (.var ⟨2, 42⟩ "i") (.int ⟨2, 46⟩ 1)⟩
      [.print ⟨2, 49⟩ (.var ⟨2, 55⟩ "m")],
    .forEach ⟨3, 1⟩ (.var ⟨3, 1⟩ "m") "i" [.print ⟨3, 11⟩ (.var ⟨3, 17⟩ "i")],
    .function ⟨4, 1⟩ "show" [⟨⟨4, 8⟩, "m"⟩] [.print ⟨4, 11⟩ (.var ⟨4, 17⟩ "m")],
    .call ⟨5, 1⟩ "show" [.var ⟨5, 7⟩ "m"]]⟩

/-- The tree of that program, with two variables of each name. -/
def leakingTree : Node :=
  .program [.shortIf (.bool true) [.declare ⟨0, "m", .int⟩ (.number (.int 3))],
    .forLoop (.declare ⟨1, "i", .int⟩ (.number (.int 0)))
      (.binary .lt (.var ⟨1, "i", .int⟩) (.number (.int 2)) .boolean)
      (.assign ⟨1, "i", .int⟩ (.binary .add (.var ⟨1, "i", .int⟩) (.number (.int 1)) .int))
      [.print (.var ⟨0, "m", .int⟩)] false,
    .forEach ⟨2, "i", .int⟩ (.var ⟨0, "m", .int⟩) [.print (.var ⟨2, "i", .int⟩)],
    .define ⟨3, "show", [⟨4, "m", .any⟩]⟩ [.print (.var ⟨4, "m", .any⟩)],
    .call ⟨3, "show", [⟨4, "m", .any⟩]⟩ [.var ⟨0, "m", .int⟩] .any]

theorem leakingBranch_binds_as_resolved :
    resolve leakingBranch = .ok leakingTree ∧ optimize leakingTree = .ok leakingTree.optimize ∧
    ∀ tree ∈ [leakingTree, leakingTree.optimize],
      ∃ e, Js.emit tree.toStatements = .ok e ∧ generate tree = .ok (Js.programText e.program) ∧
        Js.Faithful tree.toStatements e := by
  have hbinds := emission_binds_as_resolved (p := leakingBranch) (t := leakingTree) rfl
  refine ⟨rfl, hbinds.1, ?_⟩
  intro tree htree
  have hfault : Js.stmtsFault? tree.toStatements = none := by
    simp only [List.mem_cons, List.not_mem_nil, or_false] at htree
    rcases htree with rfl | rfl <;> decide +kernel
  rcases hbinds.2 tree htree with hlimit | hemit
  · simp [generate, Js.generate, Js.emit, hfault, Except.map, Except.mapError] at hlimit
  · exact hemit

end Squishc
