import Squishc.Proofs.OptimizeSound
import Squishc.Proofs.ResolvedTree

/-!
# Optimizing keeps scopes

Statements may be replaced by others as far as scopes are concerned: the others
make the same entities known, use none that were not known before, bind the same
entities to their block and raise no others.  The optimized form of statements
replaces them in this sense, even though an unrolled loop gives up its block.

Main results:

- Theorem `isExpr_optimize`: an optimized expression is an expression and mentions
  nothing new.
- Theorem `repeats_roundsOf`: the rounds of a loop whose body declares nothing.
- Theorem `replaces_optimizeStmts`: optimized statements replace the statements.
-/

namespace Squishc.Node

/-! ## Expressions -/

theorem Reduction.isExpr {op : Op} {left right n : Node} {type : Ty}
    (h : Reduction op left right type n) (hleft : left.isExpr = true)
    (hright : right.isExpr = true) :
    n.isExpr = true ∧ n.mentioned ⊆ left.mentioned ++ right.mentioned := by
  cases h with
  | kept => exact ⟨by simp [Node.isExpr, hleft, hright], List.Subset.refl _⟩
  | left => exact ⟨hleft, List.subset_append_left _ _⟩
  | right => exact ⟨hright, List.subset_append_right _ _⟩
  | turned => exact ⟨hright, List.subset_append_right _ _⟩
  | known c => cases c <;> exact ⟨rfl, List.nil_subset _⟩

theorem isExpr_reduceUnary (op : Op) {operand : Node} (type : Ty) (h : operand.isExpr = true) :
    (reduceUnary op operand type).isExpr = true ∧
      (reduceUnary op operand type).mentioned ⊆ operand.mentioned := by
  unfold reduceUnary
  split
  · exact ⟨rfl, List.nil_subset _⟩
  · exact ⟨rfl, List.nil_subset _⟩
  · exact ⟨h, List.Subset.refl _⟩

theorem append_subset_append {α : Type} {as bs cs ds : List α} (h : as ⊆ cs) (h' : bs ⊆ ds) :
    as ++ bs ⊆ cs ++ ds := by
  intro a ha
  rw [List.mem_append] at ha ⊢
  exact ha.imp (@h a) (@h' a)

mutual

/-- An optimized expression is an expression and mentions nothing new. -/
theorem isExpr_optimize : ∀ e : Node, e.isExpr = true →
    e.optimize.isExpr = true ∧ e.optimize.mentioned ⊆ e.mentioned
  | bool _, _ | number _, _ | var _, _ | string _ _, _ => ⟨rfl, List.Subset.refl _⟩
  | unary op operand type, h => by
    have hoperand := isExpr_optimize operand h
    have hreduced := isExpr_reduceUnary op type hoperand.1
    rw [optimize_unary]
    exact ⟨hreduced.1, List.Subset.trans hreduced.2 hoperand.2⟩
  | binary op left right type, h => by
    simp only [isExpr, Bool.and_eq_true] at h
    have hleft := isExpr_optimize left h.1
    have hright := isExpr_optimize right h.2
    have hreduced :=
      (reduction_reduceBinary op left.optimize right.optimize type).isExpr hleft.1 hright.1
    rw [optimize_binary]
    exact ⟨hreduced.1, List.Subset.trans hreduced.2 (append_subset_append hleft.2 hright.2)⟩
  | conditional consequent test alternate type, h => by
    simp only [isExpr, Bool.and_eq_true] at h
    have hconsequent := isExpr_optimize consequent h.1
    have htest := isExpr_optimize test h.2.1
    have halternate := isExpr_optimize alternate h.2.2
    rw [optimize_conditional]
    refine ⟨by simp [isExpr, hconsequent.1, htest.1, halternate.1], ?_⟩
    exact append_subset_append hconsequent.2 (append_subset_append htest.2 halternate.2)
  | array elements type, h => allExpr_optimizeAll elements h
  | index a i type, h => by
    simp only [isExpr, Bool.and_eq_true] at h
    have harray := isExpr_optimize a h.1
    have hindex := isExpr_optimize i h.2
    rw [optimize_index]
    exact ⟨by simp [isExpr, harray.1, hindex.1], append_subset_append harray.2 hindex.2⟩
  | call f args type, h => by
    have hargs := allExpr_optimizeAll args h
    exact ⟨hargs.1, List.cons_subset_cons _ hargs.2⟩

theorem allExpr_optimizeAll : ∀ es : List Node, allExpr es = true →
    allExpr (optimizeAll es) = true ∧ mentionedAll (optimizeAll es) ⊆ mentionedAll es
  | [], _ => ⟨rfl, List.Subset.refl _⟩
  | e :: rest, h => by
    simp only [allExpr, Bool.and_eq_true] at h
    have hfirst := isExpr_optimize e h.1
    have hrest := allExpr_optimizeAll rest h.2
    rw [optimizeAll_cons]
    exact ⟨by simp [allExpr, hfirst.1, hrest.1], append_subset_append hfirst.2 hrest.2⟩

end

/-! ## Replacing statements -/

@[simp] theorem boundAll_append (inBranch : Bool) (ns ms : List Node) :
    boundAll inBranch (ns ++ ms) = boundAll inBranch ns ++ boundAll inBranch ms := by
  induction ns with
  | nil => rfl
  | cons n rest ih => simp [boundAll, ih]

@[simp] theorem raisedAll_append (inBranch : Bool) (ns ms : List Node) :
    raisedAll inBranch (ns ++ ms) = raisedAll inBranch ns ++ raisedAll inBranch ms := by
  induction ns with
  | nil => rfl
  | cons n rest ih => simp [raisedAll, ih]

@[simp] theorem clearAll_append (inBranch : Bool) (ns ms : List Node) :
    ClearAll inBranch (ns ++ ms) ↔ ClearAll inBranch ns ∧ ClearAll inBranch ms := by
  induction ns with
  | nil => simp [ClearAll]
  | cons n rest ih => simp [ClearAll, ih, and_assoc]

@[simp] theorem allFormed_append (ns ms : List Node) :
    allFormed (ns ++ ms) = (allFormed ns && allFormed ms) := by
  induction ns with
  | nil => rfl
  | cons n rest ih => simp [allFormed, ih, Bool.and_assoc]

/-- Some statements can take the place of others as far as scopes are concerned. -/
structure Replaces (ns ms : List Node) : Prop where
  formed : allFormed ms = true
  exports : exportsAll ms = exportsAll ns
  inScope : ∀ known, ScopedAll known ns → ScopedAll known ms
  bound : ∀ inBranch, boundAll inBranch ms = boundAll inBranch ns
  raised : ∀ inBranch, raisedAll inBranch ms ⊆ raisedAll inBranch ns
  clear : ∀ inBranch, ClearAll inBranch ns → ClearAll inBranch ms

namespace Replaces

theorem nil : Replaces [] [] :=
  ⟨rfl, rfl, fun _ h => h, fun _ => rfl, fun _ => List.Subset.refl _, fun _ h => h⟩

theorem append {ns ms ns' ms' : List Node} (h : Replaces ns ms) (h' : Replaces ns' ms') :
    Replaces (ns ++ ns') (ms ++ ms') where
  formed := by simp [h.formed, h'.formed]
  exports := by simp [h.exports, h'.exports]
  inScope known hscoped := by
    rw [scopedAll_append] at hscoped ⊢
    rw [h.exports]
    exact ⟨h.inScope known hscoped.1, h'.inScope _ hscoped.2⟩
  bound inBranch := by simp [h.bound, h'.bound]
  raised inBranch := by
    rw [raisedAll_append, raisedAll_append]
    exact append_subset_append (h.raised inBranch) (h'.raised inBranch)
  clear inBranch hclear := by
    rw [clearAll_append] at hclear ⊢
    exact ⟨h.clear inBranch hclear.1, h'.clear inBranch hclear.2⟩

/-- One statement for another. -/
theorem single {n m : Node} (hlist : m.isList = false) (hformed : m.formed = true)
    (hexports : m.exports = n.exports) (hscoped : ∀ known, n.Scoped known → m.Scoped known)
    (hbound : ∀ inBranch, m.bound inBranch = n.bound inBranch)
    (hraised : ∀ inBranch, m.raised inBranch ⊆ n.raised inBranch)
    (hclear : ∀ inBranch, n.Clear inBranch → m.Clear inBranch) : Replaces [n] [m] where
  formed := by simp [allFormed, hlist, hformed]
  exports := by simp [exportsAll, hexports]
  inScope known h := ⟨hscoped known h.1, trivial⟩
  bound inBranch := by simp [boundAll, hbound]
  raised inBranch := by simpa [raisedAll] using hraised inBranch
  clear inBranch h := ⟨hclear inBranch h.1, trivial⟩

/-- One statement without a block of its own for another. -/
theorem leaf {n m : Node} (hlist : m.isList = false) (hformed : m.formed = true)
    (hexports : m.exports = n.exports) (hscoped : ∀ known, n.Scoped known → m.Scoped known)
    (hsame : ∀ inBranch, m.bound inBranch = n.bound inBranch ∧
      m.raised inBranch = n.raised inBranch ∧ (n.Clear inBranch → m.Clear inBranch)) :
    Replaces [n] [m] :=
  .single hlist hformed hexports hscoped (fun inBranch => (hsame inBranch).1)
    (fun inBranch => (hsame inBranch).2.1 ▸ List.Subset.refl _)
    (fun inBranch => (hsame inBranch).2.2)

/-- A statement that declares nothing in its block may vanish. -/
theorem vanish {n : Node} (hexports : n.exports = [])
    (hbound : ∀ inBranch, n.bound inBranch = []) : Replaces [n] [] where
  formed := rfl
  exports := by simp [exportsAll, hexports]
  inScope _ _ := trivial
  bound inBranch := by simp [boundAll, hbound]
  raised _ := List.nil_subset _
  clear _ _ := trivial

/-- A block stays without clash. -/
theorem apart {ns ms : List Node} (h : Replaces ns ms) (hapart : Apart ns) : Apart ms := by
  unfold Apart
  rw [h.bound]
  exact ⟨hapart.1, fun e he hraised => hapart.2 e he (h.raised false hraised)⟩

end Replaces

/-! ## Rounds of a loop -/

theorem declares_ifElse (test : Node) (consequence : List Node) (alternate : Node) :
    (ifElse test consequence alternate).declares =
      (anyDeclares consequence || anyDeclares alternate.spread) := by
  cases alternate <;> simp [declares, spread, anyDeclares]

theorem spread_of_isList_eq_false {n : Node} (h : n.isList = false) : n.spread = [n] := by
  cases n with
  | list items => cases h
  | _ => rfl

mutual

/-- A statement that declares nothing in its block makes nothing known. -/
theorem exports_of_not_declares : ∀ n : Node, n.formed = true → anyDeclares n.spread = false →
    n.exports = []
  | declare _ _, _, h | define _ _, _, h => by cases h
  | shortIf _ consequence, hformed, h => by
    simp only [formed, Bool.and_eq_true] at hformed
    simp only [spread, anyDeclares, declares, Bool.or_false] at h
    exact exportsAll_of_not_declares consequence hformed.2 h
  | ifElse _ consequence alternate, hformed, h => by
    simp only [formed, Bool.and_eq_true] at hformed
    simp only [spread, anyDeclares, declares_ifElse, Bool.or_false, Bool.or_eq_false_iff] at h
    rw [exports, exportsAll_of_not_declares consequence hformed.2.1 h.1,
      exports_of_not_declares alternate hformed.2.2.2 h.2, List.append_nil]
  | list items, hformed, h => exportsAll_of_not_declares items hformed h
  | null, _, _ | foreign, _, _ | bool _, _, _ | number _, _, _ | var _, _, _ | function _, _, _
  | program _, _, _ | print _, _, _ | assign _ _, _, _ | whileLoop _ _, _, _
  | forLoop _ _ _ _ _, _, _ | forEach _ _ _, _, _ | exit, _, _ | ret _, _, _ | shortRet, _, _
  | call _ _ _, _, _ | unary _ _ _, _, _ | binary _ _ _ _, _, _ | conditional _ _ _ _, _, _
  | string _ _, _, _ | array _ _, _, _ | index _ _ _, _, _ => rfl

theorem exportsAll_of_not_declares : ∀ ns : List Node, allFormed ns = true →
    anyDeclares ns = false → exportsAll ns = []
  | [], _, _ => rfl
  | n :: rest, hformed, h => by
    simp only [allFormed, Bool.and_eq_true, Bool.not_eq_true'] at hformed
    simp only [anyDeclares, Bool.or_eq_false_iff] at h
    have hfirst : anyDeclares n.spread = false := by
      simp [spread_of_isList_eq_false hformed.1.1, anyDeclares, h.1]
    rw [exportsAll, exports_of_not_declares n hformed.1.2 hfirst,
      exportsAll_of_not_declares rest hformed.2 h.2, List.append_nil]

end

/-- For a statement that declares nothing in its block it makes no difference
whether it stands in a branch. -/
theorem inBranch_of_not_declares {n : Node} (h : n.declares = false) (inBranch : Bool) :
    n.bound inBranch = [] ∧ n.raised inBranch = n.raised false ∧
      (n.Clear false → n.Clear inBranch) := by
  cases n with
  | declare _ _ => cases h
  | define _ _ => cases h
  | forLoop _ _ _ _ _ => cases h
  | _ => exact ⟨rfl, rfl, fun hclear => hclear⟩

theorem inBranch_of_not_anyDeclares {ns : List Node} (h : anyDeclares ns = false)
    (inBranch : Bool) :
    boundAll inBranch ns = [] ∧ raisedAll inBranch ns = raisedAll false ns ∧
      (ClearAll false ns → ClearAll inBranch ns) := by
  induction ns with
  | nil => exact ⟨rfl, rfl, fun hclear => hclear⟩
  | cons n rest ih =>
    simp only [anyDeclares, Bool.or_eq_false_iff] at h
    have hfirst := inBranch_of_not_declares h.1 inBranch
    have hrest := ih h.2
    refine ⟨?_, ?_, ?_⟩
    · rw [boundAll, hfirst.1, hrest.1, List.append_nil]
    · rw [raisedAll, raisedAll, hfirst.2.1, hrest.2.1]
    · intro hclear
      exact ⟨hfirst.2.2 hclear.1, hrest.2.2 hclear.2⟩

/-- Some statements repeat the body of a loop, with assignments to its counter in
between. -/
structure Repeats (v : Variable) (body code : List Node) : Prop where
  formed : allFormed code = true
  exports : exportsAll code = []
  inScope : ∀ known, .var v ∈ known → ScopedAll known body → ScopedAll known code
  bound : ∀ inBranch, boundAll inBranch code = []
  raised : ∀ inBranch, raisedAll inBranch code ⊆ raisedAll false body
  clear : ∀ inBranch, ClearAll false body → ClearAll inBranch code

theorem Repeats.append {v : Variable} {body code code' : List Node} (h : Repeats v body code)
    (h' : Repeats v body code') : Repeats v body (code ++ code') where
  formed := by simp [h.formed, h'.formed]
  exports := by simp [h.exports, h'.exports]
  inScope known hv hscoped := by
    rw [scopedAll_append, h.exports, List.append_nil]
    exact ⟨h.inScope known hv hscoped, h'.inScope known hv hscoped⟩
  bound inBranch := by simp [h.bound, h'.bound]
  raised inBranch := by
    rw [raisedAll_append]
    exact List.append_subset.mpr ⟨h.raised inBranch, h'.raised inBranch⟩
  clear inBranch hclear := by
    rw [clearAll_append]
    exact ⟨h.clear inBranch hclear, h'.clear inBranch hclear⟩

/-- One round. -/
theorem repeats_round (v : Variable) (k : Int) {body : List Node} (hformed : allFormed body = true)
    (hdeclares : anyDeclares body = false) :
    Repeats v body (assign v (number (.int k)) :: body) where
  formed := by simp [allFormed, isList, Node.formed, isExpr, hformed]
  exports := exportsAll_of_not_declares body hformed hdeclares
  inScope known hv hscoped := by
    exact ⟨⟨hv, List.nil_subset _⟩, by simpa [exports] using hscoped⟩
  bound inBranch := (inBranch_of_not_anyDeclares hdeclares inBranch).1
  raised inBranch := by
    have hsame := (inBranch_of_not_anyDeclares hdeclares inBranch).2.1
    simp only [raisedAll, raised, List.nil_append, hsame]
    exact List.Subset.refl _
  clear inBranch hclear := ⟨trivial, (inBranch_of_not_anyDeclares hdeclares inBranch).2.2 hclear⟩

/-- The rounds of a loop whose body declares nothing in its block. -/
theorem repeats_roundsOf (c : Count) {body : List Node} (hformed : allFormed body = true)
    (hdeclares : anyDeclares body = false) : Repeats c.counter body (roundsOf c body) := by
  unfold roundsOf
  induction List.range c.rounds with
  | nil =>
    exact ⟨rfl, rfl, fun _ _ _ => trivial, fun _ => rfl, fun _ => List.nil_subset _,
      fun _ _ => trivial⟩
  | cons round rounds ih =>
    rw [List.flatMap_cons]
    exact (repeats_round c.counter (c.value round) hformed hdeclares).append ih

/-! ## Optimized statements -/

/-- A loop with a header, given what its parts become. -/
theorem replaces_forLoop {v w : Variable} {e e' t t' f f' : Node} {body body' : List Node}
    (he : e'.isExpr = true ∧ e'.mentioned ⊆ e.mentioned)
    (ht : t'.isExpr = true ∧ t'.mentioned ⊆ t.mentioned)
    (hf : f'.isExpr = true ∧ f'.mentioned ⊆ f.mentioned) (hbody : Replaces body body') :
    Replaces [forLoop (declare v e) t (assign w f) body false]
      [forLoop (declare v e') t' (assign w f') body' false] := by
  apply Replaces.single
  · rfl
  · simp [formed, isDeclaration, isAssignment, he.1, ht.1, hf.1, hbody.formed]
  · rfl
  · rintro known ⟨hdeclare, htest, ⟨htarget, hsource⟩, hscoped⟩
    exact ⟨List.Subset.trans he.2 hdeclare, List.Subset.trans ht.2 htest,
      ⟨htarget, List.Subset.trans hf.2 hsource⟩, hbody.inScope _ hscoped⟩
  · intro inBranch
    rfl
  · intro inBranch
    exact append_subset_append (List.Subset.refl _) (hbody.raised false)
  · rintro inBranch ⟨hapart, hclear⟩
    exact ⟨hbody.apart hapart, hbody.clear false hclear⟩

/-- A loop that gives way to its rounds. -/
theorem replaces_unrolled {v w : Variable} {e e' t t' f f' : Node} {body body' code : List Node}
    (he : e'.isExpr = true ∧ e'.mentioned ⊆ e.mentioned)
    (ht : t'.isExpr = true ∧ t'.mentioned ⊆ t.mentioned)
    (hf : f'.isExpr = true ∧ f'.mentioned ⊆ f.mentioned) (hbody : Replaces body body')
    (hcode : Repeats v body' code) :
    Replaces [forLoop (declare v e) t (assign w f) body false]
      [forLoop (declare v e') t' (assign w f') code true] := by
  apply Replaces.single
  · rfl
  · simp [formed, isDeclaration, isAssignment, he.1, ht.1, hf.1, hcode.formed]
  · rfl
  · rintro known ⟨hdeclare, htest, ⟨htarget, hsource⟩, hscoped⟩
    have hcounter : Entity.var v ∈ known ++ (declare v e').exports := by simp [exports]
    exact ⟨List.Subset.trans he.2 hdeclare, List.Subset.trans ht.2 htest,
      ⟨htarget, List.Subset.trans hf.2 hsource⟩,
      hcode.inScope _ hcounter (hbody.inScope _ hscoped)⟩
  · intro inBranch
    simp [bound, hcode.bound]
  · intro inBranch
    exact append_subset_append (List.Subset.refl _)
      (List.Subset.trans (hcode.raised inBranch) (hbody.raised false))
  · rintro inBranch ⟨-, hclear⟩
    exact hcode.clear inBranch (hbody.clear false hclear)

/-- A loop with a header after optimizing its parts, unrolled or not. -/
theorem replaces_unroll {v w : Variable} {e e' t t' f f' : Node} {body body' : List Node}
    (he : e'.isExpr = true ∧ e'.mentioned ⊆ e.mentioned)
    (ht : t'.isExpr = true ∧ t'.mentioned ⊆ t.mentioned)
    (hf : f'.isExpr = true ∧ f'.mentioned ⊆ f.mentioned) (hbody : Replaces body body') :
    Replaces [forLoop (declare v e) t (assign w f) body false]
      [unroll (declare v e') t' (assign w f') body'] := by
  unfold unroll
  split
  · rename_i c hcount
    split_ifs with hunroll
    · simp only [repeatable, Bool.and_eq_true, Bool.not_eq_true', Bool.or_eq_false_iff] at hunroll
      rcases count?_eq_some hcount with ⟨-, hdeclaration, -, -⟩
      cases hdeclaration
      exact replaces_unrolled he ht hf hbody (repeats_roundsOf c hbody.formed hunroll.1.2)
    · exact replaces_forLoop he ht hf hbody
  · exact replaces_forLoop he ht hf hbody

/-- An optimized alternative can still be an alternative. -/
theorem isAlternative_optimize {n : Node} (h : n.isAlternative = true) :
    n.optimize.isAlternative = true := by
  cases n with
  | list _ | shortIf _ _ | ifElse _ _ _ => rfl
  | _ => cases h

/-- An alternative is scoped, raises and is clear like the statements in it. -/
theorem alternative_spread (n : Node) :
    n.exports = exportsAll n.spread ∧ (∀ known, n.Scoped known ↔ ScopedAll known n.spread) ∧
      (n.raised true = raisedAll true n.spread) ∧ (n.Clear true ↔ ClearAll true n.spread) := by
  cases n with
  | list items => exact ⟨rfl, fun _ => Iff.rfl, rfl, Iff.rfl⟩
  | _ => simp [spread, exportsAll, ScopedAll, raisedAll, ClearAll]

theorem formed_of_allFormed_spread {n : Node} (h : allFormed n.spread = true) :
    n.formed = true := by
  cases n with
  | list items => exact h
  | _ => simpa [spread, allFormed, isList] using h

/-- A branch with an alternative, given what its parts become. -/
theorem replaces_ifElse {t t' a a' : Node} {body body' : List Node}
    (ht : t'.isExpr = true ∧ t'.mentioned ⊆ t.mentioned) (hbody : Replaces body body')
    (hkind : a'.isAlternative = true) (helse : Replaces a.spread a'.spread) :
    Replaces [ifElse t body a] [ifElse t' body' a'] := by
  rcases alternative_spread a with ⟨hexports, hscoped, hraised, hclear⟩
  rcases alternative_spread a' with ⟨hexports', hscoped', hraised', hclear'⟩
  apply Replaces.single
  · rfl
  · simp [formed, ht.1, hbody.formed, hkind, formed_of_allFormed_spread helse.formed]
  · rw [exports, exports, hbody.exports, hexports', helse.exports, ← hexports]
  · rintro known ⟨htest, hconsequence, halternate⟩
    refine ⟨List.Subset.trans ht.2 htest, hbody.inScope known hconsequence, ?_⟩
    rw [hbody.exports, hscoped']
    exact helse.inScope _ ((hscoped _).mp halternate)
  · intro inBranch
    rfl
  · intro inBranch
    rw [raised, raised, hraised, hraised']
    exact append_subset_append (hbody.raised true) (helse.raised true)
  · rintro inBranch ⟨hconsequence, halternate⟩
    exact ⟨hbody.clear true hconsequence, hclear'.mpr (helse.clear true (hclear.mp halternate))⟩

mutual

/-- The optimized form of a statement replaces it. -/
theorem replaces_optimize : ∀ n : Node, n.formed = true → Replaces n.spread n.optimize.spread
  | print argument, h => by
    have hexpr := isExpr_optimize argument h
    exact .leaf rfl hexpr.1 rfl (fun _ => List.Subset.trans hexpr.2) fun _ => ⟨rfl, rfl, id⟩
  | declare v initializer, h => by
    have hexpr := isExpr_optimize initializer h
    exact .leaf rfl hexpr.1 rfl (fun _ => List.Subset.trans hexpr.2) fun _ => ⟨rfl, rfl, id⟩
  | assign target source, h => by
    have hexpr := isExpr_optimize source h
    rw [optimize_assign, reduceAssign]
    split
    · exact .vanish rfl fun _ => rfl
    · exact .leaf rfl hexpr.1 rfl (fun _ => .imp id (List.Subset.trans hexpr.2))
        fun _ => ⟨rfl, rfl, id⟩
  | ret expression, h => by
    have hexpr := isExpr_optimize expression h
    exact .leaf rfl hexpr.1 rfl (fun _ => List.Subset.trans hexpr.2) fun _ => ⟨rfl, rfl, id⟩
  | call f args type, h => by
    have hargs := allExpr_optimizeAll args h
    exact .leaf rfl hargs.1 rfl (fun _ => .imp id (List.Subset.trans hargs.2))
      fun _ => ⟨rfl, rfl, id⟩
  | exit, _ | shortRet, _ => .leaf rfl rfl rfl (fun _ => id) fun _ => ⟨rfl, rfl, id⟩
  | shortIf test consequence, h => by
    simp only [formed, Bool.and_eq_true] at h
    have htest := isExpr_optimize test h.1
    have hbody := replaces_optimizeStmts consequence h.2
    rw [optimize_shortIf]
    apply Replaces.single
    · rfl
    · simp [formed, htest.1, hbody.formed]
    · exact hbody.exports
    · rintro known ⟨hmentioned, hscoped⟩
      exact ⟨List.Subset.trans htest.2 hmentioned, hbody.inScope known hscoped⟩
    · intro inBranch
      rfl
    · intro inBranch
      exact hbody.raised true
    · intro inBranch
      exact hbody.clear true
  | ifElse test consequence alternate, h => by
    simp only [formed, Bool.and_eq_true] at h
    rw [optimize_ifElse]
    exact replaces_ifElse (isExpr_optimize test h.1) (replaces_optimizeStmts consequence h.2.1)
      (isAlternative_optimize h.2.2.1) (replaces_optimize alternate h.2.2.2)
  | list items, h => replaces_optimizeStmts items h
  | whileLoop test body, h => by
    simp only [formed, Bool.and_eq_true] at h
    have htest := isExpr_optimize test h.1
    have hbody := replaces_optimizeStmts body h.2
    rw [optimize_whileLoop, reduceWhile]
    split
    · exact .vanish rfl fun _ => rfl
    · apply Replaces.single
      · rfl
      · simp [formed, htest.1, hbody.formed]
      · rfl
      · rintro known ⟨hmentioned, hscoped⟩
        exact ⟨List.Subset.trans htest.2 hmentioned, hbody.inScope known hscoped⟩
      · intro inBranch
        rfl
      · intro inBranch
        exact hbody.raised false
      · rintro inBranch ⟨hapart, hclear⟩
        exact ⟨hbody.apart hapart, hbody.clear false hclear⟩
  | forLoop declaration test increment body true, h => by
    simp only [formed, Bool.and_eq_true] at h
    rcases h with ⟨hdeclaration, htest, hincrement, hformed⟩
    have hbody := replaces_optimizeStmts body hformed
    rw [optimize_unrolled]
    apply Replaces.single
    · rfl
    · simp [formed, hdeclaration, htest, hincrement, hbody.formed]
    · rfl
    · rintro known ⟨hdeclare, hmentioned, hassign, hscoped⟩
      exact ⟨hdeclare, hmentioned, hassign, hbody.inScope _ hscoped⟩
    · intro inBranch
      simp [bound, hbody.bound]
    · intro inBranch
      exact append_subset_append (List.Subset.refl _) (hbody.raised inBranch)
    · intro inBranch hclear
      exact hbody.clear inBranch hclear
  | forLoop declaration test increment body false, h => by
    simp only [formed, Bool.and_eq_true] at h
    rcases h with ⟨hdeclaration, htest, hincrement, hformed⟩
    have hbody := replaces_optimizeStmts body hformed
    cases declaration with
    | declare v e =>
      cases increment with
      | assign w f =>
        rw [optimize_forLoop, optimize_declare, optimizeIncrement_assign, spread_unroll]
        exact replaces_unroll (isExpr_optimize e hdeclaration.2) (isExpr_optimize test htest)
          (isExpr_optimize f hincrement.2) hbody
      | _ => cases hincrement.1
    | _ => cases hdeclaration.1
  | forEach iterator collection body, h => by
    simp only [formed, Bool.and_eq_true] at h
    have hexpr := isExpr_optimize collection h.1
    have hbody := replaces_optimizeStmts body h.2
    rw [optimize_forEach, reduceForEach]
    split
    · exact .vanish rfl fun _ => rfl
    · apply Replaces.single
      · rfl
      · simp [formed, hexpr.1, hbody.formed]
      · rfl
      · rintro known ⟨hmentioned, hscoped⟩
        exact ⟨List.Subset.trans hexpr.2 hmentioned, hbody.inScope _ hscoped⟩
      · intro inBranch
        rfl
      · intro inBranch
        exact hbody.raised false
      · rintro inBranch ⟨hiterator, hapart, hclear⟩
        exact ⟨fun hraised => hiterator (hbody.raised false hraised), hbody.apart hapart,
          hbody.clear false hclear⟩
  | define f body, h => by
    have hbody := replaces_optimizeStmts body h
    rw [optimize_define]
    apply Replaces.single
    · rfl
    · exact hbody.formed
    · rfl
    · intro known hscoped
      exact hbody.inScope _ hscoped
    · intro inBranch
      rfl
    · intro inBranch
      exact List.Subset.refl _
    · rintro inBranch ⟨hparams, hbound, hapart, hclear⟩
      refine ⟨hparams, ?_, hbody.apart hapart, hbody.clear false hclear⟩
      rwa [hbody.bound]

/-- Optimized statements replace the statements. -/
theorem replaces_optimizeStmts : ∀ ns : List Node, allFormed ns = true →
    Replaces ns (optimizeStmts ns)
  | [], _ => .nil
  | n :: rest, h => by
    simp only [allFormed, Bool.and_eq_true, Bool.not_eq_true'] at h
    have hfirst := replaces_optimize n h.1.2
    rw [spread_of_isList_eq_false h.1.1] at hfirst
    rw [optimizeStmts_cons]
    exact hfirst.append (replaces_optimizeStmts rest h.2)

end

end Squishc.Node
