import Squishc.Proofs.NodeScope

/-!
# Resolved trees

What is true of every tree that resolving a program gives: each part of it is of
the right kind, it uses no entity before the entity is made known, and each
entity is declared once.

Main results:

- Theorem `stmts_settled`: statements are well formed and well scoped.
- Theorem `resolve_settled`: so is a program, and it declares each entity once.
-/

namespace Squishc

/-- All names of a chain stand for known entities. -/
def Chain.Within (known : List Entity) (chain : Chain) : Prop :=
  ∀ name e, chain.resolve? name = some e → e ∈ known

namespace Resolve

/-- Any fault will do. -/
abbrev AnyFault : ResolveFault → Prop := fun _ => True

theorem ignores_anyFault : Ignores AnyFault := fun _ _ => trivial

theorem misses_anyFault (chain : Chain) (ms : List Mention) : Misses chain AnyFault ms :=
  fun _ _ _ => trivial

section Chains

variable {known : List Entity} {chain : Chain}

theorem Gives.subset {ms : List Mention} {es : List Entity} (h : Gives chain ms es)
    (hwithin : chain.Within known) : es ⊆ known := by
  induction h with
  | nil => exact List.nil_subset known
  | cons hm _ ih => exact List.cons_subset.mpr ⟨hwithin _ _ hm, ih⟩

/-- An empty scope adds nothing. -/
theorem within_enter (hwithin : chain.Within known) {s : Scope} (hempty : s.locals = []) :
    Chain.Within known (s :: chain) := by
  intro name e h
  rw [Chain.resolve?, List.findSome?_cons] at h
  have hnone : s.find? name = none := by simp [Scope.find?, hempty]
  rw [hnone] at h
  exact hwithin name e h

end Chains

/-- The second chain knows the entities of the first and some more. -/
def Adds (chain : Chain) (es : List Entity) (next : Chain) : Prop :=
  ∀ known, chain.Within known → next.Within (known ++ es)

theorem Adds.none (chain : Chain) : Adds chain [] chain := by
  intro known hwithin
  rwa [List.append_nil]

theorem Adds.trans {chain next last : Chain} {es fs : List Entity} (h : Adds chain es next)
    (h' : Adds next fs last) : Adds chain (es ++ fs) last := by
  intro known hwithin
  rw [← List.append_assoc]
  exact h' _ (h known hwithin)

/-- A declaration adds its entity. -/
theorem declare_adds (env : Env) (name : String) (e : Entity) (pos : Pos) :
    Ends (env.declare name e pos) (fun next => Adds env.chain [e] next.chain) AnyFault := by
  unfold Env.declare
  split
  · rename_i hchain
    intro known _ other x h
    rw [hchain] at h
    cases h
  · rename_i top outer hchain
    split
    · trivial
    · rename_i next hnext
      intro known hwithin other x h
      rw [List.mem_append, List.mem_singleton]
      rw [Chain.resolve?, List.findSome?_cons, Scope.find?_declare? hnext other] at h
      by_cases hsame : other = name
      · rw [if_pos hsame] at h
        cases h
        exact .inr rfl
      · rw [if_neg hsame] at h
        refine .inl (hwithin other x ?_)
        rw [hchain]
        exact h

theorem declareVariable_adds (env : Env) (name : String) (type : Ty) (pos : Pos) :
    Ends (env.declareVariable name type pos) (fun r => Adds env.chain [.var r.1] r.2.chain)
      AnyFault :=
  (declare_adds ⟨env.chain, env.fresh + 1⟩ name (.var ⟨env.fresh, name, type⟩) pos).bind
    fun _ hnext => hnext

theorem declareParams_adds (env : Env) (params : List (Surface.Param × Variable)) :
    Ends (declareParams env params)
      (fun next => Adds env.chain (params.map fun p => .var p.2) next.chain) AnyFault := by
  induction params generalizing env with
  | nil => exact Adds.none env.chain
  | cons p rest ih =>
    refine (declare_adds env p.1.name (.var p.2) p.1.pos).bind fun next hnext => ?_
    exact (ih next).mono fun last hlast => hnext.trans hlast

theorem map_zip_paramVariables (first : Nat) (params : List Surface.Param) :
    (params.zip (paramVariables first params)).map (fun p => Entity.var p.2) =
      (paramVariables first params).map .var := by
  induction params generalizing first with
  | nil => rfl
  | cons p rest ih => simp [paramVariables, ih]

/-! ## Expressions -/

/-- What is true of an expression that was resolved in a chain. -/
def SettledExpr (chain : Chain) (n : Node) : Prop :=
  n.isExpr = true ∧ ∀ known, chain.Within known → n.mentioned ⊆ known

theorem expr_settled (chain : Chain) (e : Surface.Expr) :
    Ends (expr chain e) (SettledExpr chain) AnyFault := by
  refine (expr_ends ignores_anyFault e (misses_anyFault chain _)).mono ?_
  rintro n ⟨hexpr, hgives⟩
  exact ⟨hexpr, fun known hwithin => hgives.subset hwithin⟩

theorem test_settled (env : Env) (e : Surface.Expr) :
    Ends (test env e) (SettledExpr env.chain) AnyFault := by
  refine (expr_settled env.chain e).bind fun n hn => ?_
  exact (checkBoolean_ends ignores_anyFault _ _ _).bind fun _ _ => hn

/-! ## Statements -/

/-- What is true of a node that was resolved in one chain and led to another. -/
structure Settled (chain : Chain) (n : Node) (next : Chain) : Prop where
  formed : n.formed = true
  inScope : ∀ known, chain.Within known → n.Scoped known
  adds : Adds chain n.exports next

/-- What is true of statements that were resolved in one chain and led to
another. -/
structure SettledAll (chain : Chain) (ns : List Node) (next : Chain) : Prop where
  formed : Node.allFormed ns = true
  inScope : ∀ known, chain.Within known → Node.ScopedAll known ns
  adds : Adds chain (Node.exportsAll ns) next

theorem SettledAll.cons {chain next last : Chain} {n : Node} {ns : List Node}
    (hn : Settled chain n next) (hlist : n.isList = false) (hns : SettledAll next ns last) :
    SettledAll chain (n :: ns) last where
  formed := by simp [Node.allFormed, hlist, hn.formed, hns.formed]
  inScope known hwithin := ⟨hn.inScope known hwithin, hns.inScope _ (hn.adds known hwithin)⟩
  adds := hn.adds.trans hns.adds

theorem settled_shortIf {chain next : Chain} {t : Node} {consequence : List Node}
    (ht : SettledExpr chain t) (hbody : SettledAll chain consequence next) :
    Settled chain (.shortIf t consequence) next where
  formed := by simp [Node.formed, ht.1, hbody.formed]
  inScope known hwithin := ⟨ht.2 known hwithin, hbody.inScope known hwithin⟩
  adds := hbody.adds

theorem settled_ifElse {chain next last : Chain} {t : Node} {consequence : List Node}
    {alternate : Node} (ht : SettledExpr chain t) (hbody : SettledAll chain consequence next)
    (hkind : alternate.isAlternative = true) (helse : Settled next alternate last) :
    Settled chain (.ifElse t consequence alternate) last where
  formed := by simp [Node.formed, ht.1, hbody.formed, hkind, helse.formed]
  inScope known hwithin :=
    ⟨ht.2 known hwithin, hbody.inScope known hwithin, helse.inScope _ (hbody.adds known hwithin)⟩
  adds := hbody.adds.trans helse.adds

theorem declaration_settled (env : Env) (b : Surface.Binding) :
    Ends (declaration env b) (fun r => (r.1.isDeclaration = true ∧ r.1.isList = false) ∧
      Settled env.chain r.1 r.2.chain) AnyFault := by
  refine (expr_settled env.chain b.value).bind fun n hn => ?_
  refine (declareVariable_adds env b.name n.type b.pos).bind ?_
  rintro ⟨v, next⟩ hadds
  exact ⟨⟨rfl, rfl⟩, hn.1, hn.2, hadds⟩

theorem assignment_settled (env : Env) (b : Surface.Binding) :
    Ends (assignment env b) (fun n => (n.isAssignment = true ∧ n.isList = false) ∧
      Settled env.chain n env.chain) AnyFault := by
  refine (assignTarget_ends ignores_anyFault (m := ⟨b.name, b.pos⟩)
    (misses_anyFault env.chain _)).bind fun v hv => ?_
  refine (expr_settled env.chain b.value).bind fun n hn => ?_
  refine (require_ends ignores_anyFault (by simp)).bind fun _ _ => ?_
  refine ⟨⟨rfl, rfl⟩, hn.1, ?_, Adds.none env.chain⟩
  intro known hwithin
  exact ⟨hv.subset hwithin List.mem_cons_self, hn.2 known hwithin⟩

mutual

/-- A resolved statement is well formed and well scoped. -/
theorem stmt_settled (env : Env) : ∀ s : Surface.Stmt,
    Ends (stmt env s) (fun r => r.1.isList = false ∧ Settled env.chain r.1 r.2.chain) AnyFault
  | .print _ value => by
    refine (expr_settled env.chain value).bind fun n hn => ?_
    exact ⟨rfl, hn.1, hn.2, Adds.none env.chain⟩
  | .declare b => (declaration_settled env b).mono fun r hr => ⟨hr.1.2, hr.2⟩
  | .assign b => (assignment_settled env b).bind fun n hn => ⟨hn.1.2, hn.2⟩
  | .branch _ e body rest => by
    refine (test_settled env e).bind fun t ht => ?_
    refine (stmts_settled env body).bind ?_
    rintro ⟨nodes, next⟩ hbody
    refine (alternative_settled next rest).bind ?_
    rintro ⟨alternate?, last⟩ helse
    cases alternate? with
    | none => exact ⟨rfl, settled_shortIf ht (helse ▸ hbody)⟩
    | some alternate => exact ⟨rfl, settled_ifElse ht hbody helse.1 helse.2⟩
  | .whileLoop _ e body => by
    refine (test_settled env e).bind fun t ht => ?_
    refine (stmts_settled (env.inside true none) body).bind ?_
    rintro ⟨nodes, inner⟩ hbody
    refine ⟨rfl, by simp [Node.formed, ht.1, hbody.formed], ?_, Adds.none env.chain⟩
    intro known hwithin
    exact ⟨ht.2 known hwithin, hbody.inScope known (within_enter hwithin rfl)⟩
  | .forLoop _ init e update body => by
    refine (declaration_settled (env.inside true none) init).bind ?_
    rintro ⟨d, inner⟩ ⟨⟨hkind, -⟩, hd⟩
    refine (test_settled inner e).bind fun t ht => ?_
    refine (assignment_settled inner update).bind ?_
    rintro increment ⟨⟨hkind', -⟩, hincrement⟩
    refine (stmts_settled inner body).bind ?_
    rintro ⟨nodes, last⟩ hbody
    refine ⟨rfl, ?_, ?_, Adds.none env.chain⟩
    · simp [Node.formed, hkind, hd.formed, ht.1, hkind', hincrement.formed, hbody.formed]
    · intro known hwithin
      have hin := within_enter hwithin (s := (env.chain.headD .root).child true none) rfl
      have hknown := hd.adds known hin
      exact ⟨hd.inScope known hin, ht.2 _ hknown, hincrement.inScope _ hknown,
        hbody.inScope _ hknown⟩
  | .forEach pos e name body => by
    refine (expr_settled env.chain e).bind fun collection hcollection => ?_
    cases itemType? collection.type with
    | none => trivial
    | some item =>
      refine (declareVariable_adds (env.inside true none) name item pos).bind ?_
      rintro ⟨v, inner⟩ hadds
      refine (stmts_settled inner body).bind ?_
      rintro ⟨nodes, last⟩ hbody
      refine ⟨rfl, by simp [Node.formed, hcollection.1, hbody.formed], ?_, Adds.none env.chain⟩
      intro known hwithin
      exact ⟨hcollection.2 known hwithin,
        hbody.inScope _ (hadds known (within_enter hwithin rfl))⟩
  | .function pos name params body => by
    refine (declare_adds _ name (.function ⟨env.fresh, name, paramVariables (env.fresh + 1) params⟩)
      pos).bind fun next hnext => ?_
    refine (declareParams_adds (next.inside false _) _).bind fun inner hinner => ?_
    refine (stmts_settled inner body).bind ?_
    rintro ⟨nodes, last⟩ hbody
    refine ⟨rfl, hbody.formed, ?_, hnext⟩
    intro known hwithin
    have hparams := hinner _ (within_enter (hnext known hwithin) rfl)
    rw [map_zip_paramVariables] at hparams
    exact hbody.inScope _ (by simpa using hparams)
  | .exit pos => by
    refine (require_ends ignores_anyFault (by simp)).bind fun _ _ => ?_
    exact ⟨rfl, rfl, fun _ _ => trivial, Adds.none env.chain⟩
  | .ret pos none => by
    refine (require_ends ignores_anyFault (by simp)).bind fun _ _ => ?_
    exact ⟨rfl, rfl, fun _ _ => trivial, Adds.none env.chain⟩
  | .ret pos (some e) => by
    refine (require_ends ignores_anyFault (by simp)).bind fun _ _ => ?_
    refine (expr_settled env.chain e).bind fun n hn => ?_
    exact ⟨rfl, hn.1, hn.2, Adds.none env.chain⟩
  | .call pos callee args => by
    refine (calledFunction_ends ignores_anyFault (m := ⟨callee, pos⟩)
      (misses_anyFault env.chain _)).bind fun f hf => ?_
    refine (exprs_ends ignores_anyFault args (misses_anyFault env.chain _)).bind
      fun nodes hnodes => ?_
    refine (call_ends ignores_anyFault f nodes pos).bind ?_
    rintro n ⟨rfl, -⟩
    refine ⟨rfl, hnodes.1, ?_, Adds.none env.chain⟩
    intro known hwithin
    exact ⟨hf.subset hwithin List.mem_cons_self, hnodes.2.subset hwithin⟩
  | .stray _ => trivial

/-- Resolved statements are well formed and well scoped. -/
theorem stmts_settled (env : Env) : ∀ ss : List Surface.Stmt,
    Ends (stmts env ss) (fun r => SettledAll env.chain r.1 r.2.chain) AnyFault
  | [] => ⟨rfl, fun _ _ => trivial, Adds.none env.chain⟩
  | s :: rest => by
    refine (stmt_settled env s).bind ?_
    rintro ⟨n, next⟩ ⟨hlist, hn⟩
    refine (stmts_settled next rest).bind ?_
    rintro ⟨others, last⟩ hothers
    exact SettledAll.cons hn hlist hothers

theorem alternative_settled (env : Env) : ∀ rest : Surface.Else,
    Ends (alternative env rest) (fun r => match r.1 with
      | none => r.2 = env
      | some n => n.isAlternative = true ∧ Settled env.chain n r.2.chain) AnyFault
  | .absent => rfl
  | .body body => by
    refine (stmts_settled env body).bind ?_
    rintro ⟨nodes, next⟩ hbody
    exact ⟨rfl, hbody.formed, hbody.inScope, hbody.adds⟩
  | .branch _ e body rest => by
    refine (test_settled env e).bind fun t ht => ?_
    refine (stmts_settled env body).bind ?_
    rintro ⟨nodes, next⟩ hbody
    refine (alternative_settled next rest).bind ?_
    rintro ⟨alternate?, last⟩ helse
    cases alternate? with
    | none => exact ⟨rfl, settled_shortIf ht (helse ▸ hbody)⟩
    | some alternate => exact ⟨rfl, settled_ifElse ht hbody helse.1 helse.2⟩
  | .stray _ => trivial

end

end Resolve

/-! ## Programs -/

/-- A walk that declares no entity at two places declares distinct entities. -/
theorem nodup_filterMap_declared? {typed : List (Event Entity)}
    (h : ∀ (j k : Nat) (e : Entity),
      typed[j]? = some (.declare e) → typed[k]? = some (.declare e) → j = k) :
    (typed.filterMap Event.declared?).Nodup := by
  induction typed with
  | nil => exact List.nodup_nil
  | cons ev rest ih =>
    have hrest : (rest.filterMap Event.declared?).Nodup := by
      apply ih
      intro j k e hj hk
      have hsame := h (j + 1) (k + 1) e (by simpa using hj) (by simpa using hk)
      omega
    cases ev with
    | declare e =>
      rw [List.filterMap_cons, Event.declared?]
      refine List.nodup_cons.mpr ⟨?_, hrest⟩
      intro he
      rcases List.mem_filterMap.mp he with ⟨ev, hev, hdeclared⟩
      rcases List.getElem?_of_mem hev with ⟨k, hk⟩
      cases ev <;> cases hdeclared
      have hsame := h 0 (k + 1) e (by simp) (by simpa using hk)
      omega
    | enter => exact hrest
    | leave => exact hrest
    | use e => exact hrest

/-- The tree of a program is well formed and well scoped and declares each entity
once. -/
theorem resolve_settled {p : Surface.Program} {t : Node} (h : resolve p = .ok t) :
    ∃ nodes, t = .program nodes ∧ Node.allFormed nodes = true ∧ Node.ScopedAll [] nodes ∧
      (Node.madeAll nodes).Nodup := by
  have hsettled : Ends (resolve p) (fun t => ∃ nodes, t = .program nodes ∧
      Node.allFormed nodes = true ∧ Node.ScopedAll [] nodes) Resolve.AnyFault := by
    refine (Resolve.stmts_settled .initial p.statements).bind ?_
    rintro ⟨nodes, env⟩ hnodes
    refine ⟨nodes, rfl, hnodes.formed, hnodes.inScope [] ?_⟩
    exact Resolve.within_enter (fun _ _ h => by cases h) rfl
  rcases hsettled.ok h with ⟨nodes, rfl, hformed, hscoped⟩
  refine ⟨nodes, rfl, hformed, hscoped, ?_⟩
  rcases (resolve_ends p).ok h with ⟨fresh, htracks⟩
  have hnodup := nodup_filterMap_declared? htracks.distinct
  simpa [Node.walk, Node.madeAll, List.filterMap_cons, Event.declared?] using hnodup

end Squishc
