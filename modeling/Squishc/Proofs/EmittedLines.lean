import Squishc.Proofs.LineBlocks
import Squishc.Proofs.ListingText
import Squishc.Proofs.NameOrder
import Squishc.Proofs.SpelledPrograms
import Squishc.Proofs.StringLiterals

/-!
# Emitted lines nest as the statements do

An emitted program is one text, but each of its lines is a unit of its own: names,
operators and numbers have no end of a line in them, and those of a string are escaped.
So the lines of the text are the lines that were emitted.

The braces at the ends of these lines tell which lines belong together.  The body of every
branch, loop and function is enclosed by the line in front of it and the line that closes
the block.  A branch behind an `else` closes the block in front of it and opens its own
on the next line, and a loop that was unrolled has no block.

Main results:

- Theorem `isLine_lowerExpr`: an emitted expression has no end of a line in it.
- Theorem `runs_lowerStmts`: the lines of emitted statements and their blocks.
- Theorem `emitted_lines_nest`: the lines of the text of a program nest as its statements
  do.
-/

namespace Squishc

namespace Js

open Lines

/-! ## Texts on one line -/

theorem isLine_append (s t : String) : isLine (s ++ t) = (isLine s && isLine t) := by
  simp [isLine]

theorem isLine_of_forall {p : Char → Bool} {text : String} (hp : p '\n' = false)
    (h : ∀ c ∈ text.toList, p c = true) : isLine text = true := by
  simpa [isLine] using Scan.newline_not_mem_of_forall hp h

theorem isLine_intercalate (sep : String) (hsep : isLine sep = true) {texts : List String}
    (h : ∀ text ∈ texts, isLine text = true) : isLine (sep.intercalate texts) = true := by
  induction texts with
  | nil => rfl
  | cons text rest ih =>
    rw [List.forall_mem_cons] at h
    cases rest with
    | nil => simpa using h.1
    | cons next rest =>
      rw [String.intercalate_cons_cons, isLine_append, isLine_append, h.1, hsep, ih h.2]
      rfl

theorem isLine_escape (value : String) : isLine (escape value) = true := by
  have htext : (escape value).toList = value.toList.flatMap escapeChar := String.toList_ofList
  have hline : '\n' ∉ value.toList.flatMap escapeChar := by
    intro hmem
    obtain ⟨c, -, hc⟩ := List.mem_flatMap.mp hmem
    exact (raw_not_mem_escapeChar c).1 hc
  simpa [isLine, htext] using hline

theorem isLine_literal (value : Num) : isLine value.literal = true := by
  cases value with
  | int n =>
    have hchars : ∀ c ∈ (Num.int n).literal.toList, (c.isDigit || c == '-') = true := by
      intro c hc
      simpa using Num.mem_text_int hc
    exact isLine_of_forall (p := fun c => c.isDigit || c == '-') rfl hchars
  | float x =>
    rw [Num.literal]
    split
    · rfl
    split
    · split <;> rfl
    · exact isLine_of_forall (p := Number.isNumeral) rfl (Number.isNumeral_finiteText x)

theorem isLine_operator {op : Op} (h : op.isKnown = true) :
    isLine op.text = true ∧ isLine (operatorText op) = true := by
  cases op with
  | other text => cases h
  | _ => exact ⟨rfl, rfl⟩

/-- A name is a letter or an underscore and what may follow one, up to its number. -/
theorem isLine_name {name : Name} (h : isIdentifier name.base = true) :
    isLine name.text = true ∧ ∀ rest, closes (name.text ++ rest) = false := by
  unfold isIdentifier at h
  cases hbase : name.base.toList with
  | nil =>
    rw [hbase] at h
    cases h
  | cons c rest =>
    rw [hbase, Bool.and_eq_true, List.all_eq_true] at h
    have htext : name.text.toList = c :: (rest ++ '_' :: Nat.toDigits 10 name.index) := by
      rw [Name.toList_text, hbase]
      rfl
    have hc : c ≠ '\x7d' := by
      rintro rfl
      exact absurd h.1 (by decide)
    constructor
    · have hchars : ∀ d ∈ name.text.toList, Scan.continuesName d = true := by
        rw [htext, List.forall_mem_cons, List.forall_mem_append, List.forall_mem_cons]
        refine ⟨Bool.or_eq_true_iff.mpr (.inl h.1), h.2, rfl, ?_⟩
        intro d hd
        have hdigit := Nat.isDigit_of_mem_toDigits (by norm_num) (by norm_num) hd
        exact Bool.or_eq_true_iff.mpr (.inr hdigit)
      exact isLine_of_forall (p := Scan.continuesName) rfl hchars
    · intro text
      simp [closes, htext, hc]

/-! ## Expressions -/

theorem isLine_signedOperand {text : String} (h : isLine text = true) :
    isLine (signedOperand text) = true := by
  unfold signedOperand
  split
  · rw [isLine_append, h]
    rfl
  · exact h

theorem isLine_leftOperand (op : Op) {text : String} (h : isLine text = true) :
    isLine (leftOperand op text) = true := by
  unfold leftOperand
  split
  · rw [isLine_append, isLine_append, h]
    rfl
  · exact h

/-- An entity with an identifier for its name is given a name that begins with it. -/
theorem isIdentifier_name {n : Naming} (hn : n.Based) {e : Entity}
    (h : isIdentifier e.name = true) : isIdentifier (n.name e).1.base = true := by
  have hbase : (n.name e).1.base = e.name := hn.base_meet (.entity e)
  rwa [hbase]

mutual

/-- An emitted expression has no end of a line in it. -/
theorem isLine_lowerExpr : ∀ (e : Node) {n : Naming}, n.Based →
    e.every isIdentifier Op.isKnown = true → isLine (lowerExpr e n).1.text = true
  | .bool value, _, _, _ => by cases value <;> simp [lowerExpr, Expr.text, isLine]
  | .number value, _, _, _ => isLine_literal value
  | .string value _, _, _, _ => by
    rw [lowerExpr, Expr.text, isLine_append, isLine_append, isLine_escape]
    rfl
  | .var v, _, hn, h => (isLine_name (isIdentifier_name hn (e := .var v) h)).1
  | .unary op operand _, n, hn, h => by
    simp only [Node.every, Bool.and_eq_true] at h
    have hoperand := isLine_lowerExpr operand hn h.2
    simp only [lowerExpr, Expr.text, isLine_append, (isLine_operator h.1).1,
      isLine_signedOperand hoperand]
    rfl
  | .binary op left right _, n, hn, h => by
    simp only [Node.every, Bool.and_eq_true] at h
    have hleft := isLine_lowerExpr left hn h.2.1
    have hright := isLine_lowerExpr right (hn.of_meets (meets_expr left n)) h.2.2
    simp only [lowerExpr, Expr.text, isLine_append, (isLine_operator h.1).2,
      isLine_leftOperand op hleft, hright]
    rfl
  | .conditional consequent test alternate _, n, hn, h => by
    simp only [Node.every, Bool.and_eq_true] at h
    have htest := isLine_lowerExpr test hn h.2.1
    have hn' := hn.of_meets (meets_expr test n)
    have hconsequent := isLine_lowerExpr consequent hn' h.1
    have halternate := isLine_lowerExpr alternate (hn'.of_meets (meets_expr consequent _)) h.2.2
    simp only [lowerExpr, Expr.text, isLine_append, htest, hconsequent, halternate]
    rfl
  | .call callee args _, n, hn, h => by
    simp only [Node.every, Bool.and_eq_true] at h
    have hname := (isLine_name (isIdentifier_name hn (e := .function callee) h.1)).1
    have hargs := isLine_lowerExprs args (hn.of_meets (Naming.meets_name n (.function callee))) h.2
    simp only [lowerExpr, Expr.text, isLine_append, hname, isLine_intercalate "," rfl hargs]
    rfl
  | .array elements _, n, hn, h => by
    have helements := isLine_lowerExprs elements hn h
    simp only [lowerExpr, Expr.text, isLine_append, isLine_intercalate "," rfl helements]
    rfl
  | .index a i _, n, hn, h => by
    simp only [Node.every, Bool.and_eq_true] at h
    have harray := isLine_lowerExpr a hn h.1
    have hindex := isLine_lowerExpr i (hn.of_meets (meets_expr a n)) h.2
    simp only [lowerExpr, Expr.text, isLine_append, harray, hindex]
    rfl
  | .null, _, _, _ | .foreign, _, _, _ | .function _, _, _, _ | .list _, _, _, _
  | .program _, _, _, _ | .print _, _, _, _ | .declare _ _, _, _, _ | .assign _ _, _, _, _
  | .shortIf _ _, _, _, _ | .ifElse _ _ _, _, _, _ | .whileLoop _ _, _, _, _
  | .forLoop _ _ _ _ _, _, _, _ | .forEach _ _ _, _, _, _ | .define _ _, _, _, _
  | .exit, _, _, _ | .ret _, _, _, _ | .shortRet, _, _, _ => rfl

theorem isLine_lowerExprs : ∀ (es : List Node) {n : Naming}, n.Based →
    Node.everyAll isIdentifier Op.isKnown es = true →
    ∀ text ∈ texts (lowerExprs es n).1, isLine text = true
  | [], _, _, _ => by simp [lowerExprs, texts]
  | e :: rest, n, hn, h => by
    simp only [Node.everyAll, Bool.and_eq_true] at h
    have hfirst := isLine_lowerExpr e hn h.1
    have hothers := isLine_lowerExprs rest (hn.of_meets (meets_expr e n)) h.2
    simp only [lowerExprs, texts, List.forall_mem_cons]
    exact ⟨hfirst, hothers⟩

end

/-! ## Blocks of statements -/

/-- The header of a loop over a collection. -/
def loopHeader (item : Name) (node : Node) (collection : Expr) (n : Naming) : String :=
  match node.type with
  | .int =>
    if isIntLiteral node then countUpHeader item collection
    else countToHeader item (n.fresh "limit").1 collection
  | .any => forOfHeader item collection true
  | _ => forOfHeader item collection false

mutual

/-- The blocks of a statement: for each branch, loop and function in it, in the order of the
text, the line in front of its body and the lines of the body.  The increment of a loop ends
the body, and a loop that was unrolled has no block of its own. -/
def stmtBlocks (inBranch : Bool) : Node → Naming → List Block
  | .shortIf test consequence, n =>
    let (t, n) := lowerExpr test n
    ⟨branchHeader t, allLines (lowerStmts true consequence n).1⟩ :: stmtsBlocks true consequence n
  | .ifElse test consequence alternate, n =>
    let (t, n) := lowerExpr test n
    let (body, last) := lowerStmts true consequence n
    ⟨branchHeader t, allLines body⟩ ::
      (stmtsBlocks true consequence n ++ elseBlocks alternate last)
  | .whileLoop test body, n =>
    let (t, n) := lowerExpr test n
    ⟨opening ("while (" ++ t.text ++ ")"), allLines (lowerStmts false body n).1⟩ ::
      stmtsBlocks false body n
  | .forLoop declaration test increment body unrolled, n =>
    let start := (lowerStmt inBranch declaration n).2
    stmtBlocks inBranch declaration n ++
      if unrolled then stmtsBlocks inBranch body start
      else
        let (t, n) := lowerExpr test start
        let (stmts, last) := lowerStmts false body n
        ⟨opening ("while (" ++ t.text ++ ")"),
          allLines stmts ++ allLines (lowerStmt inBranch increment last).1⟩ ::
            (stmtsBlocks false body n ++ stmtBlocks inBranch increment last)
  | .forEach iterator collection body, n =>
    let (item, n) := n.name (.var iterator)
    let (e, n) := lowerExpr collection n
    let start := (lowerLoop item collection e n).2
    ⟨loopHeader item collection e n, allLines (lowerStmts false body start).1⟩ ::
      stmtsBlocks false body start
  | .define f body, n =>
    let (name, n) := n.name (.function f)
    let (params, n) := n.nameAll f.params
    ⟨functionHeader inBranch name params, allLines (lowerStmts false body n).1⟩ ::
      stmtsBlocks false body n
  | _, _ => []

/-- The blocks of the alternative of a branch.  A further branch has a header of its own,
and a closing body is opened by the line that closes the body in front of it. -/
def elseBlocks : Node → Naming → List Block
  | .shortIf test consequence, n =>
    let (t, n) := lowerExpr test n
    ⟨branchHeader t, allLines (lowerStmts true consequence n).1⟩ :: stmtsBlocks true consequence n
  | .ifElse test consequence alternate, n =>
    let (t, n) := lowerExpr test n
    let (body, last) := lowerStmts true consequence n
    ⟨branchHeader t, allLines body⟩ ::
      (stmtsBlocks true consequence n ++ elseBlocks alternate last)
  | .list items, n =>
    ⟨opening (closing ++ " else"), allLines (lowerStmts true items n).1⟩ :: stmtsBlocks true items n
  | _, _ => []

/-- The blocks of some statements. -/
def stmtsBlocks (inBranch : Bool) : List Node → Naming → List Block
  | [], _ => []
  | s :: rest, n =>
    stmtBlocks inBranch s n ++ stmtsBlocks inBranch rest (lowerStmt inBranch s n).2

end

/-- The block of the helper. -/
def helperBlock : Block := ⟨opening "function _iter(c)", (helperLines.drop 1).dropLast⟩

/-! ## Lines of statements -/

theorem allLines_append (ss rest : List Stmt) :
    allLines (ss ++ rest) = allLines ss ++ allLines rest := by
  induction ss with
  | nil => rfl
  | cons s ss ih => rw [List.cons_append, allLines, allLines, ih, List.append_assoc]

theorem allLines_singleton (s : Stmt) : allLines [s] = s.lines := List.append_nil s.lines

theorem opens_append (s : String) {t : String} (h : t.toList ≠ []) : opens (s ++ t) = opens t := by
  rw [opens, opens, String.toList_append, List.getLast?_append_of_ne_nil _ h]

theorem closes_closing : Closes [closing] [] := .cons rfl rfl rfl .nil

/-! ## Headers -/

theorem isHeader_opening {text : String} (hline : isLine text = true)
    (hcloses : closes (opening text) = false) : IsHeader (opening text) where
  isLine := by
    rw [opening, isLine_append, hline]
    rfl
  opens := opens_append text (t := " \x7b") (by simp)
  closes := hcloses

theorem isHeader_branch {t : Expr} (ht : isLine t.text = true) : IsHeader (branchHeader t) := by
  apply isHeader_opening
  · rw [isLine_append, isLine_append, ht]
    rfl
  · simp [closes, opening]

theorem isHeader_while {t : Expr} (ht : isLine t.text = true) :
    IsHeader (opening ("while (" ++ t.text ++ ")")) := by
  apply isHeader_opening
  · rw [isLine_append, isLine_append, ht]
    rfl
  · simp [closes, opening]

theorem isLine_nameList {names : List Name}
    (h : ∀ name ∈ names, isIdentifier name.base = true) : isLine (nameList names) = true := by
  apply isLine_intercalate ", " rfl
  rw [List.forall_mem_map]
  exact fun name hname => (isLine_name (h name hname)).1

theorem isIdentifier_nameAll {n : Naming} (hn : n.Based) {vs : List Variable}
    (h : vs.all (fun v => isIdentifier v.name) = true) :
    ∀ name ∈ (n.nameAll vs).1, isIdentifier name.base = true := by
  have hbases := hn.bases_meetAll (vs.map fun v => .entity (.var v))
  rw [Naming.meets_nameAll n vs] at hbases
  intro name hname
  have hbase : name.base ∈ (n.nameAll vs).1.map Name.base := List.mem_map_of_mem hname
  rw [hbases, List.map_map, List.mem_map] at hbase
  obtain ⟨v, hv, hname⟩ := hbase
  rw [← hname]
  exact List.all_eq_true.mp h v hv

theorem isHeader_function (bound : Bool) {name : Name} {params : List Name}
    (hname : isIdentifier name.base = true)
    (hparams : ∀ param ∈ params, isIdentifier param.base = true) :
    IsHeader (functionHeader bound name params) := by
  have hline := (isLine_name hname).1
  have hlist := isLine_nameList hparams
  unfold functionHeader
  split
  · apply isHeader_opening
    · simp only [isLine_append, hline, hlist]
      rfl
    · simp [closes, opening]
  · apply isHeader_opening
    · simp only [isLine_append, hline, hlist]
      rfl
    · simp [closes, opening]

theorem closes_function (bound : Bool) :
    Closes [if bound then closing ++ ";" else closing] [] := by
  cases bound with
  | true => exact .cons rfl rfl rfl .nil
  | false => exact closes_closing

theorem closes_else {body : List String} {bs : List Block} (hbody : Runs 0 body bs) :
    Closes (opening (closing ++ " else") :: body ++ [closing])
      (⟨opening (closing ++ " else"), body⟩ :: (bs ++ [])) :=
  .reopen rfl rfl rfl hbody closes_closing

theorem isHeader_countUp {counter : Name} {bound : Expr}
    (hcounter : isLine counter.text = true) (hbound : isLine bound.text = true) :
    IsHeader (countUpHeader counter bound) := by
  apply isHeader_opening
  · simp only [isLine_append, hcounter, hbound]
    rfl
  · simp [closes, opening]

theorem isHeader_countTo {counter limit : Name} {bound : Expr}
    (hcounter : isLine counter.text = true) (hlimit : isLine limit.text = true)
    (hbound : isLine bound.text = true) : IsHeader (countToHeader counter limit bound) := by
  apply isHeader_opening
  · simp only [isLine_append, hcounter, hlimit, hbound]
    rfl
  · simp [closes, opening]

theorem isHeader_forOf {item : Name} {collection : Expr} (helped : Bool)
    (hitem : isLine item.text = true) (hcollection : isLine collection.text = true) :
    IsHeader (forOfHeader item collection helped) := by
  apply isHeader_opening
  · split
    · simp only [isLine_append, hitem, hcollection]
      rfl
    · simp only [isLine_append, hitem, hcollection]
      rfl
  · simp [closes, opening]

theorem isHeader_loop {item : Name} (node : Node) {collection : Expr} (n : Naming)
    (hitem : isIdentifier item.base = true) (hcollection : isLine collection.text = true) :
    IsHeader (loopHeader item node collection n) := by
  have hline := (isLine_name hitem).1
  unfold loopHeader
  split
  · split
    · exact isHeader_countUp hline hcollection
    · have hlimit : isIdentifier (n.fresh "limit").1.base = true := by
        change isIdentifier "limit" = true
        decide +kernel
      exact isHeader_countTo hline (isLine_name hlimit).1 hcollection
  · exact isHeader_forOf true hline hcollection
  · exact isHeader_forOf false hline hcollection

theorem lines_lowerLoop (item : Name) (node : Node) (collection : Expr) (n : Naming)
    (body : List Stmt) : ((lowerLoop item node collection n).1 body).lines =
      loopHeader item node collection n :: allLines body ++ [closing] := by
  unfold lowerLoop loopHeader
  cases node.type with
  | int =>
    dsimp only
    split <;> rfl
  | _ => rfl

theorem based_lowerLoop {n : Naming} (hn : n.Based) (item : Name) (node : Node)
    (collection : Expr) : (lowerLoop item node collection n).2.Based := by
  unfold lowerLoop
  split
  · split
    · exact hn
    · exact hn
  · exact hn
  · exact hn

/-! ## Emitted statements -/

theorem runs_log {argument : Expr} (h : isLine argument.text = true) :
    Runs 0 (allLines [.log argument]) [] := by
  apply Runs.single
  · simp only [isLine_append, h]
    rfl
  · exact opens_append _ (by simp)
  · simp [closes]

theorem runs_declare (binder : Binder) {name : Name} {initializer : Expr}
    (hname : isIdentifier name.base = true) (h : isLine initializer.text = true) :
    Runs 0 (allLines [.declare binder name initializer]) [] := by
  apply Runs.single
  · simp only [isLine_append, (isLine_name hname).1, h]
    cases binder <;> rfl
  · exact opens_append _ (by simp)
  · cases binder <;> simp [closes, Binder.text]

theorem runs_assign {target : Name} {source : Expr} (htarget : isIdentifier target.base = true)
    (h : isLine source.text = true) : Runs 0 (allLines [.assign target source]) [] := by
  apply Runs.single
  · simp only [isLine_append, (isLine_name htarget).1, h]
    rfl
  · exact opens_append _ (by simp)
  · rw [String.append_assoc, String.append_assoc]
    exact (isLine_name htarget).2 _

theorem runs_call {callee : Name} {args : List Expr} (hcallee : isIdentifier callee.base = true)
    (h : ∀ text ∈ texts args, isLine text = true) : Runs 0 (allLines [.call callee args]) [] := by
  apply Runs.single
  · simp only [Expr.text, isLine_append, (isLine_name hcallee).1, isLine_intercalate "," rfl h]
    rfl
  · exact opens_append _ (by simp)
  · rw [Expr.text, String.append_assoc, String.append_assoc, String.append_assoc]
    exact (isLine_name hcallee).2 _

theorem runs_ret {expression : Expr} (h : isLine expression.text = true) :
    Runs 0 (allLines [.ret expression]) [] := by
  apply Runs.single
  · simp only [isLine_append, h]
    rfl
  · exact opens_append _ (by simp)
  · simp [closes]

/-- A block that a single brace closes. -/
theorem runs_closed {header : String} {body : List String} {bs : List Block}
    (hheader : IsHeader header) (hbody : Runs 0 body bs) :
    Runs 0 (header :: body ++ [closing]) (⟨header, body⟩ :: bs) := by
  have hblock := Runs.block hheader hbody closes_closing
  rwa [List.append_nil] at hblock

theorem runs_loop {item : Name} {node : Node} {collection : Expr} {n : Naming}
    {body : List Stmt} {bs : List Block} (hitem : isIdentifier item.base = true)
    (h : isLine collection.text = true) (hbody : Runs 0 (allLines body) bs) :
    Runs 0 (allLines [(lowerLoop item node collection n).1 body])
      (⟨loopHeader item node collection n, allLines body⟩ :: bs) := by
  rw [allLines_singleton, lines_lowerLoop]
  exact runs_closed (isHeader_loop node n hitem h) hbody

mutual

/-- The lines of an emitted statement hold its blocks. -/
theorem runs_lowerStmt (inBranch : Bool) : ∀ (s : Node) {n : Naming}, n.Based →
    s.every isIdentifier Op.isKnown = true →
    Runs 0 (allLines (lowerStmt inBranch s n).1) (stmtBlocks inBranch s n)
  | .print argument, _, hn, h => runs_log (isLine_lowerExpr argument hn h)
  | .declare v initializer, n, hn, h => by
    simp only [Node.every, Bool.and_eq_true] at h
    have hinitializer := isLine_lowerExpr initializer hn h.2
    have hv := isIdentifier_name (hn.of_meets (meets_expr initializer n)) (e := .var v) h.1
    exact runs_declare (binderFor inBranch) hv hinitializer
  | .assign target source, n, hn, h => by
    simp only [Node.every, Bool.and_eq_true] at h
    have htarget := isIdentifier_name hn (e := .var target) h.1
    have hsource := isLine_lowerExpr source (hn.of_meets (Naming.meets_name n (.var target))) h.2
    exact runs_assign htarget hsource
  | .call callee args _, n, hn, h => by
    simp only [Node.every, Bool.and_eq_true] at h
    have hcallee := isIdentifier_name hn (e := .function callee) h.1
    have hargs := isLine_lowerExprs args (hn.of_meets (Naming.meets_name n (.function callee))) h.2
    exact runs_call hcallee hargs
  | .ret expression, _, hn, h => runs_ret (isLine_lowerExpr expression hn h)
  | .exit, _, _, _ | .shortRet, _, _, _ => .single rfl rfl rfl
  | .shortIf test consequence, n, hn, h => by
    simp only [Node.every, Bool.and_eq_true] at h
    have htest := isLine_lowerExpr test hn h.1
    have hbody := runs_lowerStmts true consequence (hn.of_meets (meets_expr test n)) h.2
    have hblock := runs_closed (isHeader_branch htest) hbody
    rwa [← List.append_nil (_ ++ _)] at hblock
  | .ifElse test consequence alternate, n, hn, h => by
    simp only [Node.every, Bool.and_eq_true] at h
    have htest := isLine_lowerExpr test hn h.1
    have hn' := hn.of_meets (meets_expr test n)
    have hbody := runs_lowerStmts true consequence hn' h.2.1
    have hrest := closes_lowerElse alternate (hn'.of_meets (meets_stmts true consequence _)) h.2.2
    have hblock := Runs.block (isHeader_branch htest) hbody hrest
    rwa [← List.append_nil (_ ++ _)] at hblock
  | .whileLoop test body, n, hn, h => by
    simp only [Node.every, Bool.and_eq_true] at h
    have htest := isLine_lowerExpr test hn h.1
    have hbody := runs_lowerStmts false body (hn.of_meets (meets_expr test n)) h.2
    have hblock := runs_closed (isHeader_while htest) hbody
    rwa [← List.append_nil (_ ++ _)] at hblock
  | .forLoop declaration test increment body true, n, hn, h => by
    simp only [Node.every, Bool.and_eq_true] at h
    have hdeclaration := runs_lowerStmt inBranch declaration hn h.1
    have hbody := runs_lowerStmts inBranch body (hn.of_meets (meets_stmt inBranch declaration n))
      h.2.2.2
    have hboth := hdeclaration.append hbody
    rwa [← allLines_append] at hboth
  | .forLoop declaration test increment body false, n, hn, h => by
    simp only [Node.every, Bool.and_eq_true] at h
    have hdeclaration := runs_lowerStmt inBranch declaration hn h.1
    have hstart := hn.of_meets (meets_stmt inBranch declaration n)
    have htest := isLine_lowerExpr test hstart h.2.1
    have hn' := hstart.of_meets (meets_expr test _)
    have hbody := runs_lowerStmts false body hn' h.2.2.2
    have hlast := runs_lowerStmt inBranch increment (hn'.of_meets (meets_stmts false body _))
      h.2.2.1
    have hblock := runs_closed (isHeader_while htest) (hbody.append hlast)
    have hboth := hdeclaration.append hblock
    change Runs 0 (allLines (_ ++ [.whileLoop _ (_ ++ _)])) _
    rw [allLines_append, allLines_singleton, Stmt.lines, allLines_append]
    exact hboth
  | .forEach iterator collection body, n, hn, h => by
    simp only [Node.every, Bool.and_eq_true] at h
    have hitem := isIdentifier_name hn (e := .var iterator) h.1
    have hn' := hn.of_meets (Naming.meets_name n (.var iterator))
    have hcollection := isLine_lowerExpr collection hn' h.2.1
    have hstart := hn'.of_meets (meets_expr collection _)
    have hloop := based_lowerLoop hstart (n.name (.var iterator)).1 collection
      (lowerExpr collection (n.name (.var iterator)).2).1
    have hbody := runs_lowerStmts false body hloop h.2.2
    exact runs_loop hitem hcollection hbody
  | .define f body, n, hn, h => by
    simp only [Node.every, Bool.and_eq_true] at h
    have hname := isIdentifier_name hn (e := .function f) h.1
    have hn' := hn.of_meets (Naming.meets_name n (.function f))
    have hparams := isIdentifier_nameAll hn' h.2.1
    have hbody := runs_lowerStmts false body (hn'.of_meets (Naming.meets_nameAll _ f.params)) h.2.2
    have hblock := Runs.block (isHeader_function inBranch hname hparams) hbody
      (closes_function inBranch)
    rw [List.append_nil] at hblock
    rwa [← List.append_nil (_ ++ _)] at hblock
  | .null, _, _, _ | .foreign, _, _, _ | .bool _, _, _, _ | .number _, _, _, _ | .var _, _, _, _
  | .function _, _, _, _ | .list _, _, _, _ | .program _, _, _, _ | .unary _ _ _, _, _, _
  | .binary _ _ _ _, _, _, _ | .conditional _ _ _ _, _, _, _ | .string _ _, _, _, _
  | .array _ _, _, _, _ | .index _ _ _, _, _, _ => .nil

theorem closes_lowerElse : ∀ (s : Node) {n : Naming}, n.Based →
    s.every isIdentifier Op.isKnown = true → Closes (lowerElse s n).1.lines (elseBlocks s n)
  | .shortIf test consequence, n, hn, h => by
    simp only [Node.every, Bool.and_eq_true] at h
    have htest := isLine_lowerExpr test hn h.1
    have hbody := runs_lowerStmts true consequence (hn.of_meets (meets_expr test n)) h.2
    exact .cons rfl rfl rfl (runs_closed (isHeader_branch htest) hbody)
  | .ifElse test consequence alternate, n, hn, h => by
    simp only [Node.every, Bool.and_eq_true] at h
    have htest := isLine_lowerExpr test hn h.1
    have hn' := hn.of_meets (meets_expr test n)
    have hbody := runs_lowerStmts true consequence hn' h.2.1
    have hrest := closes_lowerElse alternate (hn'.of_meets (meets_stmts true consequence _)) h.2.2
    exact .cons rfl rfl rfl (.block (isHeader_branch htest) hbody hrest)
  | .list items, n, hn, h => by
    have hbody := runs_lowerStmts true items hn h
    have hclosed := closes_else hbody
    rwa [List.append_nil] at hclosed
  | .null, _, _, _ | .foreign, _, _, _ | .bool _, _, _, _ | .number _, _, _, _ | .var _, _, _, _
  | .function _, _, _, _ | .program _, _, _, _ | .print _, _, _, _ | .declare _ _, _, _, _
  | .assign _ _, _, _, _ | .whileLoop _ _, _, _, _ | .forLoop _ _ _ _ _, _, _, _
  | .forEach _ _ _, _, _, _ | .define _ _, _, _, _ | .exit, _, _, _ | .ret _, _, _, _
  | .shortRet, _, _, _ | .call _ _ _, _, _, _ | .unary _ _ _, _, _, _ | .binary _ _ _ _, _, _, _
  | .conditional _ _ _ _, _, _, _ | .string _ _, _, _, _ | .array _ _, _, _, _
  | .index _ _ _, _, _, _ => closes_closing

/-- The lines of emitted statements hold their blocks. -/
theorem runs_lowerStmts (inBranch : Bool) : ∀ (ss : List Node) {n : Naming}, n.Based →
    Node.everyAll isIdentifier Op.isKnown ss = true →
    Runs 0 (allLines (lowerStmts inBranch ss n).1) (stmtsBlocks inBranch ss n)
  | [], _, _, _ => .nil
  | s :: rest, n, hn, h => by
    simp only [Node.everyAll, Bool.and_eq_true] at h
    have hfirst := runs_lowerStmt inBranch s hn h.1
    have hothers := runs_lowerStmts inBranch rest (hn.of_meets (meets_stmt inBranch s n)) h.2
    have hboth := hfirst.append hothers
    rwa [← allLines_append] at hboth

end

/-! ## Programs -/

theorem runs_helper : Runs 0 helperLines [helperBlock] := by
  have hheader : IsHeader (opening "function _iter(c)") :=
    isHeader_opening rfl (by simp [closes, opening])
  have hbody : Runs 0 (helperLines.drop 1).dropLast [] := by
    apply Runs.single
    · simp [isLine]
    · simp [opens]
    · simp [closes]
  exact runs_closed hheader hbody

/-- The blocks of a whole program: those of its statements, and that of the helper if there
is one. -/
def programBlocks (statements : List Node) : List Block :=
  stmtsBlocks false statements .empty ++
    if anyNeedsHelper (lowerStmts false statements .empty).1 then [helperBlock] else []

theorem runs_program {statements : List Node}
    (h : Node.everyAll isIdentifier Op.isKnown statements = true) :
    Runs 0 (programLines (lowerStmts false statements .empty).1) (programBlocks statements) := by
  apply (runs_lowerStmts false statements Naming.based_empty h).append
  split
  · exact runs_helper
  · exact .nil

theorem program_of_emit {statements : List Node} {e : Emitted} (h : emit statements = .ok e) :
    e.program = (lowerStmts false statements .empty).1 := by
  unfold emit at h
  split at h
  · cases h
  · cases h
    rfl

end Js

open Js Lines

/-- The lines of the text of an accepted program, optimized or not, are the lines that were
emitted.  Read by their braces alone they never close a block that is not open and leave
none open, and their blocks are the bodies of the branches, loops and functions, each
between its header and the line that closes it. -/
theorem emitted_lines_nest {source : String} {t : Node} (h : analyze source = .ok t) :
    optimize t = .ok t.optimize ∧
    ∀ tree ∈ [t, t.optimize],
      generate tree = .error .digitLimit ∨
      ∃ e, Js.emit tree.toStatements = .ok e ∧ generate tree = .ok (programText e.program) ∧
        Nests (programText e.program) (programLines e.program)
          (programBlocks tree.toStatements) := by
  have hspelled := analyze_spelled h
  refine ⟨(optimize_isProgram hspelled.isProgram).1, ?_⟩
  intro tree htree
  have htree : tree.Spelled := by
    rw [List.mem_pair] at htree
    rcases htree with rfl | rfl
    · exact hspelled
    · exact hspelled.optimize
  obtain ⟨statements, rfl, hformed, hparts⟩ := htree
  have hnests := (runs_program hparts).nests
  cases hemit : Js.emit (Node.program statements).toStatements with
  | ok e =>
    refine .inr ⟨e, rfl, generate_eq hemit, ?_⟩
    rw [programText, program_of_emit hemit]
    exact hnests
  | error fault =>
    rcases emit_lowered hformed with hlimit | ⟨e, he, -⟩
    · exact .inl (generate_digitLimit hlimit)
    · rw [Node.toStatements, he] at hemit
      cases hemit

/-- A chain of branches with declarations in them, one of which is a string with the end of
a line and braces, and a loop that optimizing unrolls. -/
def bracedSource : String :=
  "if true:pencil m=\"\\n\x7d \x7b\";else if false:f g x:x.loop y:break;stop stop else speak 1;stop " ++
  "for pencil i=0;stop i<2 fastfwd i=i+1;speak i;stop"

/-- The tree of that source. -/
def bracedTree : Node :=
  .program [.ifElse (.bool true) [.declare ⟨0, "m", .string⟩ (.string "\n\x7d \x7b" .string)]
      (.ifElse (.bool false)
        [.define ⟨1, "g", [⟨2, "x", .any⟩]⟩
          [.forEach ⟨3, "y", .any⟩ (.var ⟨2, "x", .any⟩) [.exit]]]
        (.list [.print (.number (.int 1))])),
    .forLoop (.declare ⟨4, "i", .int⟩ (.number (.int 0)))
      (.binary .lt (.var ⟨4, "i", .int⟩) (.number (.int 2)) .boolean)
      (.assign ⟨4, "i", .int⟩ (.binary .add (.var ⟨4, "i", .int⟩) (.number (.int 1)) .int))
      [.print (.var ⟨4, "i", .int⟩)] false]

theorem bracedTree_lines_nest :
    analyze bracedSource = .ok bracedTree ∧
    optimize bracedTree = .ok bracedTree.optimize ∧
    ∀ tree ∈ [bracedTree, bracedTree.optimize],
      generate tree = .error .digitLimit ∨
      ∃ e, Js.emit tree.toStatements = .ok e ∧ generate tree = .ok (programText e.program) ∧
        Nests (programText e.program) (programLines e.program)
          (programBlocks tree.toStatements) := by
  have htree : analyze bracedSource = .ok bracedTree := by cbv
  exact ⟨htree, emitted_lines_nest htree⟩

example : stmtsBlocks false bracedTree.toStatements .empty =
    [⟨"if (true) \x7b", ["var m_1 = \"\\n\x7d \x7b\";"]⟩,
      ⟨"if (false) \x7b", ["var g_2 = function (x_3) \x7b", "for (const y_4 of _iter(x_3)) \x7b",
        "break;", "\x7d", "\x7d;"]⟩,
      ⟨"var g_2 = function (x_3) \x7b", ["for (const y_4 of _iter(x_3)) \x7b", "break;", "\x7d"]⟩,
      ⟨"for (const y_4 of _iter(x_3)) \x7b", ["break;"]⟩,
      ⟨"\x7d else \x7b", ["console.log(1);"]⟩,
      ⟨"while ((i_5 < 2)) \x7b", ["console.log(i_5);", "i_5 = (i_5 + 1);"]⟩] := by cbv

end Squishc
