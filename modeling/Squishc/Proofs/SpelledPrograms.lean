import Squishc.Proofs.KeptParts
import Squishc.Proofs.ReadSound
import Squishc.Proofs.RenamedText
import Squishc.Proofs.TokenSlices

/-!
# How programs are spelled

The names in a program are identifiers and its operators are those of the language.  The
scanner makes names of nothing but words, the grammar has an operator in it only where it
derives one, and the passes keep both.

Main results:

- Theorem `tokenize_named`: the names among the tokens of a text are identifiers.
- Theorem `Surface.parse_spelled`: so are the names that a program declares, and its
  operators are known.
- Theorem `analyze_spelled`: the same holds of the typed tree, optimized or not.
-/

namespace Squishc

/-- Whether an operator is one of the language. -/
def Op.isKnown (op : Op) : Bool := all.contains op

/-! ## Names among the tokens -/

/-- The names among some tokens have a property. -/
def Named (P : String → Bool) (ts : List Token) : Prop :=
  ∀ t ∈ ts, ∀ name, t.lexeme = .name name → P name = true

theorem Named.mono {P : String → Bool} {ts us : List Token} (h : Named P ts) (hsub : us ⊆ ts) :
    Named P us :=
  fun t ht => h t (hsub ht)

theorem isIdentifier_of_isWord {slice : List Char} (h : Scan.IsWord slice) :
    isIdentifier (.ofList slice) = true := by
  cases h with
  | mk hc hrest => simpa [isIdentifier, hc] using hrest

/-- The names among the tokens of a text are identifiers. -/
theorem tokenize_named (source : String) : Yields (tokenize source) (Named isIdentifier) := by
  apply Yields.of_ok
  intro tokens h
  obtain ⟨pieces, last, endPos, rfl, -, hfit⟩ := Scan.tokensFrom_covers h (.start source.toList)
  intro t ht name hname
  rw [List.mem_append, List.mem_singleton, List.mem_map] at ht
  rcases ht with ⟨p, hp, rfl⟩ | rfl
  · obtain ⟨earlier, later, hpieces⟩ := List.append_of_mem hp
    have hpiece := hfit.fits hpieces
    have hword : Scan.IsWord p.slice := by
      have hreaches := hpiece.reaches
      rw [hname] at hreaches
      exact hreaches.1
    have hvalue := hpiece.value
    rw [hname] at hvalue
    cases hvalue with
    | verbatim _ htext =>
      rw [show name = .ofList p.slice from htext]
      exact isIdentifier_of_isWord hword
  · cases hname

/-! ## Programs that are read -/

namespace Surface

namespace Grammar

theorem CompareOp.isKnown {l : Lexeme} {op : Op} (h : CompareOp l op) : op.isKnown = true := by
  cases h <;> rfl

theorem SumOp.isKnown {l : Lexeme} {op : Op} (h : SumOp l op) : op.isKnown = true := by
  cases h <;> rfl

theorem ProductOp.isKnown {l : Lexeme} {op : Op} (h : ProductOp l op) : op.isKnown = true := by
  cases h <;> rfl

theorem SignOp.isKnown {l : Lexeme} {op : Op} (h : SignOp l op) : op.isKnown = true := by
  cases h <;> rfl

/-- The operators of an operation are known if its own is and those of its operands are. -/
theorem every_binary {pos : Pos} {op : Op} {left right : Expr} (hop : op.isKnown = true)
    (hleft : left.every Op.isKnown = true) (hright : right.every Op.isKnown = true) :
    (Expr.binary pos op left right).every Op.isKnown = true := by
  simp [Expr.every, hop, hleft, hright]

mutual

/-- The operators of an expression that the grammar derives are known. -/
theorem IsExpr.every : ∀ {header : Bool} {ts : List Token} {e : Expr},
    IsExpr header ts e → e.every Op.isKnown = true
  | _, _, _, .plain h => h.every
  | _, _, _, .conditional hconsequent _ htest _ halternate => by
    simp [Expr.every, hconsequent.every, htest.every, halternate.every]

theorem IsOr.every : ∀ {header : Bool} {ts : List Token} {e : Expr},
    IsOr header ts e → e.every Op.isKnown = true
  | _, _, _, .plain h => h.every
  | _, _, _, .chain hleft _ hright => every_binary rfl hleft.every hright.every

theorem IsAnd.every : ∀ {header : Bool} {ts : List Token} {e : Expr},
    IsAnd header ts e → e.every Op.isKnown = true
  | _, _, _, .plain h => h.every
  | _, _, _, .chain hleft _ hright => every_binary rfl hleft.every hright.every

theorem IsCompare.every : ∀ {header : Bool} {ts : List Token} {e : Expr},
    IsCompare header ts e → e.every Op.isKnown = true
  | _, _, _, .plain h => h.every
  | _, _, _, .pair hleft hop hright => every_binary hop.isKnown hleft.every hright.every

theorem IsSum.every : ∀ {header : Bool} {ts : List Token} {e : Expr},
    IsSum header ts e → e.every Op.isKnown = true
  | _, _, _, .plain h => h.every
  | _, _, _, .chain hleft hop hright => every_binary hop.isKnown hleft.every hright.every

theorem IsProduct.every : ∀ {header : Bool} {ts : List Token} {e : Expr},
    IsProduct header ts e → e.every Op.isKnown = true
  | _, _, _, .plain h => h.every
  | _, _, _, .chain hleft hop hright => every_binary hop.isKnown hleft.every hright.every

theorem IsUnary.every : ∀ {header : Bool} {ts : List Token} {e : Expr},
    IsUnary header ts e → e.every Op.isKnown = true
  | _, _, _, .plain h => h.every
  | _, _, _, .signed hop h => by simp [Expr.every, hop.isKnown, h.every]

theorem IsPower.every : ∀ {header : Bool} {ts : List Token} {e : Expr},
    IsPower header ts e → e.every Op.isKnown = true
  | _, _, _, .plain h => h.every
  | _, _, _, .raised hbase _ hexponent => every_binary rfl hbase.every hexponent.every

theorem IsPostfix.every : ∀ {header : Bool} {ts : List Token} {e : Expr},
    IsPostfix header ts e → e.every Op.isKnown = true
  | _, _, _, .plain h => h.every
  | _, _, _, .index harray _ hindex _ => by simp [Expr.every, harray.every, hindex.every]

theorem IsPrimary.every : ∀ {header : Bool} {ts : List Token} {e : Expr},
    IsPrimary header ts e → e.every Op.isKnown = true
  | _, _, _, .int _ _ | _, _, _, .float _ | _, _, _, .string _ | _, _, _, .true_ _
  | _, _, _, .false_ _ | _, _, _, .var _ | _, _, _, .emptyArray _ _ => rfl
  | _, _, _, .call h => h.every
  | _, _, _, .parens _ h _ | _, _, _, .group _ h _ => h.every
  | _, _, _, .oneElement _ h _ _ => by simp [Expr.every, Expr.everyAll, h.every]
  | _, _, _, .array _ h _ _ => h.every

theorem IsCall.every : ∀ {header : Bool} {ts : List Token} {callee : String} {args : List Expr},
    IsCall header ts callee args → Expr.everyAll Op.isKnown args = true
  | _, _, _, _, .bare _ _ => rfl
  | _, _, _, _, .applied _ _ h => h.every

theorem IsExprs.every : ∀ {header : Bool} {ts : List Token} {es : List Expr},
    IsExprs header ts es → Expr.everyAll Op.isKnown es = true
  | _, _, _, .one h => by simp [Expr.everyAll, h.every]
  | _, _, _, .more h _ hothers => by simp [Expr.everyAll, h.every, hothers.every]

end

variable {P : String → Bool}

theorem IsBinding.every {header : Bool} {pos : Pos} {ts : List Token} {b : Binding}
    (h : IsBinding header pos ts b) (hts : Named P ts) :
    P b.name = true ∧ b.value.every Op.isKnown = true := by
  cases h with
  | intro hident _ hvalue _ => exact ⟨hts _ List.mem_cons_self _ hident, hvalue.every⟩

theorem IsDeclaration.every {header : Bool} {ts : List Token} {b : Binding}
    (h : IsDeclaration header ts b) (hts : Named P ts) :
    P b.name = true ∧ b.value.every Op.isKnown = true := by
  cases h with
  | intro _ hbinding => exact hbinding.every (hts.mono (List.subset_cons_self _ _))

theorem IsAssignment.every {header : Bool} {ts : List Token} {b : Binding}
    (h : IsAssignment header ts b) (hts : Named P ts) : b.value.every Op.isKnown = true := by
  cases h with
  | intro hbinding => exact (hbinding.every hts).2

theorem IsParam.named {ts : List Token} {p : Param} (h : IsParam ts p) (hts : Named P ts) :
    P p.name = true := by
  cases h with
  | intro hname => exact hts _ List.mem_cons_self _ hname

theorem IsParams.named {ts : List Token} {params : List Param} (h : IsParams ts params)
    (hts : Named P ts) : params.all (fun p => P p.name) = true := by
  induction h with
  | none => rfl
  | one hp => simp [hp.named hts]
  | @more ts us comma p q others hp _ _ ih =>
    have hfirst : Named P ts := hts.mono (by simp)
    have hrest : Named P us := hts.mono (by simp [List.subset_def]; tauto)
    rw [List.all_cons, hp.named hfirst, ih hrest]
    rfl

mutual

/-- The names that a derived statement declares are names among its tokens. -/
theorem IsStmt.every {header : Bool} : ∀ {ts : List Token} {s : Stmt},
    IsStmt header ts s → Named P ts → s.every P Op.isKnown = true
  | _, _, .print _ hvalue _, _ => hvalue.every
  | _, _, .declare h, hts => by
    rw [Stmt.every, Bool.and_eq_true]
    exact h.every hts
  | _, _, .assign h, hts => h.every hts
  | _, _, .branch h, hts => h.every hts
  | _, _, .whileLoop _ htest _ hbody, hts => by
    rw [Stmt.every, htest.every, hbody.every (hts.mono (by grind))]
    rfl
  | _, _, .forLoop _ hinit _ htest _ hupdate hbody, hts => by
    have h := hinit.every (hts.mono (by grind))
    rw [Stmt.every, h.1, h.2, htest.every, hupdate.every (hts.mono (by grind)),
      hbody.every (hts.mono (by grind))]
    rfl
  | _, _, .forEach hcollection _ _ hident _ hbody, hts => by
    rw [Stmt.every, hts _ (by simp) _ hident, hcollection.every, hbody.every (hts.mono (by grind))]
    rfl
  | _, _, .function _ hident hparams _ hbody, hts => by
    rw [Stmt.every, hts _ (by simp) _ hident, hparams.named (hts.mono (by grind)),
      hbody.every (hts.mono (by grind))]
    rfl
  | _, _, .exit _ _, _ | _, _, .shortReturn _ _, _ => rfl
  | _, _, .ret _ hvalue _, _ => hvalue.every
  | _, _, .call h _, _ => h.every

theorem IsBranch.every {header : Bool} : ∀ {ts : List Token} {test : Expr} {body : List Stmt}
    {rest : Else}, IsBranch header ts test body rest → Named P ts →
    (test.every Op.isKnown && (Stmt.everyAll P Op.isKnown body && rest.every P Op.isKnown)) = true
  | _, _, _, _, .absent _ htest _ hbody _, hts => by
    rw [htest.every, hbody.every (hts.mono (by grind))]
    rfl
  | _, _, _, _, .closed _ htest _ hbody _ _ hclosing _, hts => by
    rw [htest.every, hbody.every (hts.mono (by grind))]
    exact hclosing.every (hts.mono (by grind))
  | _, _, _, _, .chained _ htest _ hbody _ _ hrest, hts => by
    rw [htest.every, hbody.every (hts.mono (by grind))]
    exact hrest.every (hts.mono (by grind))

theorem IsBlock.every {header : Bool} : ∀ {ts : List Token} {body : List Stmt},
    IsBlock header ts body → Named P ts → Stmt.everyAll P Op.isKnown body = true
  | _, _, .intro hbody _, hts => hbody.every (hts.mono (by grind))

theorem IsStmts.every {header : Bool} : ∀ {ts : List Token} {body : List Stmt},
    IsStmts header ts body → Named P ts → Stmt.everyAll P Op.isKnown body = true
  | _, _, .nil, _ => rfl
  | _, _, .cons h hothers, hts => by
    rw [Stmt.everyAll, h.every (hts.mono (by grind)), hothers.every (hts.mono (by grind))]
    rfl

end

end Grammar

/-- A program that is read from a text declares identifiers and uses known operators. -/
theorem parse_spelled {source : String} {p : Program} (h : parse source = .ok p) :
    Stmt.everyAll isIdentifier Op.isKnown p.statements = true := by
  unfold parse at h
  split at h
  · cases h
  · rename_i tokens htokens
    have hnamed : Named isIdentifier tokens := (tokenize_named source).ok htokens
    split at h
    · cases h
    · rename_i program after hread
      cases h
      obtain ⟨ts, hts, hstatements⟩ := (Reader.program_derived _).ok hread
      obtain ⟨rfl, -⟩ := Cursor.mk.inj hts
      exact hstatements.every (hnamed.mono (by grind))

end Surface

/-! ## Typed trees -/

/-- The tree of a program is one of statements that are well formed, whose names are
identifiers and whose operators are known. -/
def Node.Spelled (t : Node) : Prop :=
  ∃ statements, t = .program statements ∧ allFormed statements = true ∧
    everyAll isIdentifier Op.isKnown statements = true

theorem Node.Spelled.isProgram {t : Node} (h : t.Spelled) : t.isProgram = true := by
  obtain ⟨statements, rfl, hformed, -⟩ := h
  exact hformed

theorem Node.Spelled.optimize {t : Node} (h : t.Spelled) : t.optimize.Spelled := by
  obtain ⟨statements, rfl, hformed, hspelled⟩ := h
  rw [optimize_program]
  refine ⟨optimizeStmts statements, rfl, ?_, ?_⟩
  · exact (replaces_optimizeStmts statements hformed).formed
  · exact everyAll_optimizeStmts rfl statements hformed hspelled

/-- The tree of a source is spelled as the source is. -/
theorem analyze_spelled {source : String} {t : Node} (h : analyze source = .ok t) :
    t.Spelled := by
  cases hparse : Surface.parse source with
  | error fault =>
    rw [analyze, hparse] at h
    cases h
  | ok p =>
    rw [analyze_of_parse hparse] at h
    cases hresolve : resolve p with
    | error fault =>
      rw [hresolve] at h
      cases h
    | ok tree =>
      rw [hresolve] at h
      cases h
      obtain ⟨statements, rfl, hformed⟩ :=
        Node.eq_program_of_isProgram (resolve_isProgram hresolve)
      refine ⟨statements, rfl, hformed, ?_⟩
      exact resolve_every ⟨rfl, rfl⟩ (Surface.parse_spelled hparse) hresolve

end Squishc
