import Squishc.Proofs.JsNaming

/-!
# The order of names

Emission needs names for entities and for the limits of loops that count.  It asks
for them one after another, in the order in which the templates of JavaScript are
filled in: the initializer of a declaration before the variable, the target of an
assignment before the source.  Numbers are given in that order, one to each entity
when it is first met and one to each limit.

Main results:

- Theorem `meets_stmts`: the names in an emitted program are those that the meetings
  of its tree are given.
- Theorem `Naming.Fit.pairwise_meetAll`: two meetings are given one name if and only if
  they are with one entity.
- Theorem `Naming.Fit.eraseDups_meetAll`: numbers count up in the order of first
  meetings.
- Theorem `emitted_names_apart`: the names of an emitted program, whatever the emitter
  did before.
-/

namespace Squishc.Js

/-! ## Meetings -/

/-- What emission needs a name for: an entity, or the limit of a loop that counts. -/
inductive Meeting where
  | entity (e : Entity)
  | limit
deriving DecidableEq, Repr

/-- The part of a name before its number. -/
def Meeting.base : Meeting → String
  | entity e => e.name
  | limit => "limit"

mutual

/-- The meetings in an expression.  The test of a conditional comes first. -/
def exprMeetings : Node → List Meeting
  | .var v => [.entity (.var v)]
  | .unary _ operand _ => exprMeetings operand
  | .binary _ left right _ => exprMeetings left ++ exprMeetings right
  | .conditional consequent test alternate _ =>
    exprMeetings test ++ (exprMeetings consequent ++ exprMeetings alternate)
  | .call callee args _ => .entity (.function callee) :: exprsMeetings args
  | .array elements _ => exprsMeetings elements
  | .index array index _ => exprMeetings array ++ exprMeetings index
  | _ => []

/-- The meetings in some expressions. -/
def exprsMeetings : List Node → List Meeting
  | [] => []
  | e :: rest => exprMeetings e ++ exprsMeetings rest

end

/-- The limit of a loop over the given collection, which is only needed for an integer
that is no literal. -/
def limitMeetings (collection : Node) : List Meeting :=
  if collection.type = .int ∧ isIntLiteral collection = false then [.limit] else []

mutual

/-- The meetings in a statement. -/
def stmtMeetings : Node → List Meeting
  | .print argument => exprMeetings argument
  | .declare v initializer => exprMeetings initializer ++ [.entity (.var v)]
  | .assign target source => .entity (.var target) :: exprMeetings source
  | .shortIf test consequence => exprMeetings test ++ stmtsMeetings consequence
  | .ifElse test consequence alternate =>
    exprMeetings test ++ (stmtsMeetings consequence ++ elseMeetings alternate)
  | .whileLoop test body => exprMeetings test ++ stmtsMeetings body
  | .forLoop declaration _ _ body true => stmtMeetings declaration ++ stmtsMeetings body
  | .forLoop declaration test increment body false =>
    stmtMeetings declaration ++
      (exprMeetings test ++ (stmtsMeetings body ++ stmtMeetings increment))
  | .forEach iterator collection body =>
    .entity (.var iterator) ::
      (exprMeetings collection ++ (limitMeetings collection ++ stmtsMeetings body))
  | .define f body =>
    .entity (.function f) :: (f.params.map (fun v => .entity (.var v)) ++ stmtsMeetings body)
  | .call callee args _ => .entity (.function callee) :: exprsMeetings args
  | .ret expression => exprMeetings expression
  | _ => []

/-- The meetings in the alternative of a branch. -/
def elseMeetings : Node → List Meeting
  | .shortIf test consequence => exprMeetings test ++ stmtsMeetings consequence
  | .ifElse test consequence alternate =>
    exprMeetings test ++ (stmtsMeetings consequence ++ elseMeetings alternate)
  | .list items => stmtsMeetings items
  | _ => []

/-- The meetings in some statements. -/
def stmtsMeetings : List Node → List Meeting
  | [] => []
  | s :: rest => stmtMeetings s ++ stmtsMeetings rest

end

/-! ## Names in a program -/

mutual

/-- The names in an expression, one for each meeting. -/
def Expr.labels : Expr → List Name
  | .name n => [n]
  | .unary _ operand => operand.labels
  | .binary _ left right => left.labels ++ right.labels
  | .conditional test consequent alternate =>
    test.labels ++ (consequent.labels ++ alternate.labels)
  | .call callee args => callee :: exprsLabels args
  | .array elements => exprsLabels elements
  | .index array index => array.labels ++ index.labels
  | .bool _ | .number _ | .string _ | .blank => []

/-- The names in some expressions. -/
def exprsLabels : List Expr → List Name
  | [] => []
  | e :: rest => e.labels ++ exprsLabels rest

end

mutual

/-- The names in a statement, one for each meeting and in the order of the meetings. -/
def Stmt.labels : Stmt → List Name
  | .log argument => argument.labels
  | .declare _ name initializer => initializer.labels ++ [name]
  | .assign target source => target :: source.labels
  | .branch test body rest => test.labels ++ (stmtsLabels body ++ rest.labels)
  | .whileLoop test body => test.labels ++ stmtsLabels body
  | .countUp counter bound body => counter :: (bound.labels ++ stmtsLabels body)
  | .countTo counter limit bound body => counter :: (bound.labels ++ limit :: stmtsLabels body)
  | .forOf item collection _ body => item :: (collection.labels ++ stmtsLabels body)
  | .function _ name params body => name :: (params ++ stmtsLabels body)
  | .call callee args => callee :: exprsLabels args
  | .exit | .shortRet => []
  | .ret expression => expression.labels

/-- The names in what follows the body of a branch. -/
def Else.labels : Else → List Name
  | .absent => []
  | .body body => stmtsLabels body
  | .branch test body rest => test.labels ++ (stmtsLabels body ++ rest.labels)

/-- The names in some statements. -/
def stmtsLabels : List Stmt → List Name
  | [] => []
  | s :: rest => s.labels ++ stmtsLabels rest

end

@[simp] theorem stmtsLabels_append (ss rest : List Stmt) :
    stmtsLabels (ss ++ rest) = stmtsLabels ss ++ stmtsLabels rest := by
  induction ss with
  | nil => rfl
  | cons s ss ih => rw [List.cons_append, stmtsLabels, stmtsLabels, ih, List.append_assoc]

/-! ## Naming what is met -/

namespace Naming

/-- The name for a meeting. -/
def meet (n : Naming) : Meeting → Name × Naming
  | .entity e => n.name e
  | .limit => n.fresh "limit"

/-- The names for some meetings, one after another. -/
def meetAll (n : Naming) : List Meeting → List Name × Naming
  | [] => ([], n)
  | m :: rest => ((n.meet m).1 :: ((n.meet m).2.meetAll rest).1, ((n.meet m).2.meetAll rest).2)

/-- Some meetings are given the names, which takes one naming to another. -/
def Meets (n : Naming) (ms : List Meeting) (names : List Name) (final : Naming) : Prop :=
  n.meetAll ms = (names, final)

variable {n m k : Naming} {ms rest : List Meeting} {names others : List Name}

theorem Meets.append (h : n.Meets ms names m) (h' : m.Meets rest others k) :
    n.Meets (ms ++ rest) (names ++ others) k := by
  unfold Meets at h h' ⊢
  induction ms generalizing n names with
  | nil =>
    cases h
    exact h'
  | cons met ms ih =>
    cases h
    rw [List.cons_append, meetAll, ih rfl]
    rfl

theorem meets_name (n : Naming) (e : Entity) : n.Meets [.entity e] [(n.name e).1] (n.name e).2 :=
  rfl

theorem Meets.name {e : Entity} (h : (n.name e).2.Meets ms names k) :
    n.Meets (.entity e :: ms) ((n.name e).1 :: names) k :=
  (meets_name n e).append h

theorem meets_nameAll (n : Naming) (vs : List Variable) :
    n.Meets (vs.map fun v => .entity (.var v)) (n.nameAll vs).1 (n.nameAll vs).2 := by
  induction vs generalizing n with
  | nil => rfl
  | cons v vs ih => exact Meets.name (ih _)

theorem Meets.single {s : Stmt} (h : n.Meets ms s.labels k) :
    n.Meets ms (stmtsLabels [s]) k := by
  rwa [stmtsLabels, stmtsLabels, List.append_nil]

theorem Meets.join {ss ss' : List Stmt} (h : n.Meets ms (stmtsLabels ss) m)
    (h' : m.Meets rest (stmtsLabels ss') k) :
    n.Meets (ms ++ rest) (stmtsLabels (ss ++ ss')) k := by
  rw [stmtsLabels_append]
  exact h.append h'

end Naming

/-! ## Emission names what it meets -/

open Naming

mutual

/-- The names in an emitted expression are those of its meetings. -/
theorem meets_expr : ∀ (e : Node) (n : Naming),
    n.Meets (exprMeetings e) (lowerExpr e n).1.labels (lowerExpr e n).2
  | .var v, n => meets_name n (.var v)
  | .unary _ operand _, n => meets_expr operand n
  | .binary _ left right _, n => (meets_expr left n).append (meets_expr right _)
  | .conditional consequent test alternate _, n =>
    (meets_expr test n).append ((meets_expr consequent _).append (meets_expr alternate _))
  | .call _ args _, _ => (meets_exprs args _).name
  | .array elements _, n => meets_exprs elements n
  | .index array index _, n => (meets_expr array n).append (meets_expr index _)
  | .null, _ | .foreign, _ | .bool _, _ | .number _, _ | .function _, _ | .list _, _
  | .program _, _ | .print _, _ | .declare _ _, _ | .assign _ _, _ | .shortIf _ _, _
  | .ifElse _ _ _, _ | .whileLoop _ _, _ | .forLoop _ _ _ _ _, _ | .forEach _ _ _, _
  | .define _ _, _ | .exit, _ | .ret _, _ | .shortRet, _ | .string _ _, _ => rfl

theorem meets_exprs : ∀ (es : List Node) (n : Naming),
    n.Meets (exprsMeetings es) (exprsLabels (lowerExprs es n).1) (lowerExprs es n).2
  | [], _ => rfl
  | e :: rest, n => (meets_expr e n).append (meets_exprs rest _)

end

/-- The names in the header of a loop over a collection. -/
theorem meets_loop (item : Name) (node : Node) (collection : Expr) {n k : Naming}
    {ms : List Meeting} {body : List Stmt}
    (h : (lowerLoop item node collection n).2.Meets ms (stmtsLabels body) k) :
    ∃ names, n.Meets (limitMeetings node ++ ms) names k ∧
      ((lowerLoop item node collection n).1 body).labels =
        item :: (collection.labels ++ names) := by
  unfold lowerLoop at h ⊢
  unfold limitMeetings
  split at h
  · rename_i hint
    split at h
    · rename_i hliteral
      rw [if_neg (by simp [hliteral]), if_pos hliteral]
      exact ⟨_, h, rfl⟩
    · rename_i hliteral
      rw [if_pos ⟨hint, Bool.eq_false_iff.mpr hliteral⟩, if_neg hliteral]
      have hlimit : n.Meets [.limit] [(n.fresh "limit").1] (n.fresh "limit").2 := rfl
      exact ⟨_, hlimit.append h, rfl⟩
  · rename_i hany
    rw [if_neg (by simp [hany])]
    exact ⟨_, h, rfl⟩
  · rename_i hint _
    rw [if_neg (fun hlimit => hint hlimit.1)]
    exact ⟨_, h, rfl⟩

mutual

/-- The names in an emitted statement are those of its meetings. -/
theorem meets_stmt (inBranch : Bool) : ∀ (s : Node) (n : Naming),
    n.Meets (stmtMeetings s) (stmtsLabels (lowerStmt inBranch s n).1) (lowerStmt inBranch s n).2
  | .print argument, n => (meets_expr argument n).single
  | .declare v initializer, n =>
    ((meets_expr initializer n).append (meets_name _ (.var v))).single
  | .assign _ source, _ => (meets_expr source _).name.single
  | .shortIf test consequence, n => by
    have hparts := (meets_expr test n).append (meets_stmts true consequence _)
    rw [← List.append_nil (stmtsLabels _)] at hparts
    exact hparts.single
  | .ifElse test consequence alternate, n =>
    ((meets_expr test n).append
      ((meets_stmts true consequence _).append (meets_else alternate _))).single
  | .whileLoop test body, n =>
    ((meets_expr test n).append (meets_stmts false body _)).single
  | .forLoop declaration test increment body true, n =>
    (meets_stmt inBranch declaration n).join (meets_stmts inBranch body _)
  | .forLoop declaration test increment body false, n =>
    (meets_stmt inBranch declaration n).join
      ((meets_expr test _).append
        ((meets_stmts false body _).join (meets_stmt inBranch increment _))).single
  | .forEach iterator collection body, n => by
    rcases meets_loop (n.name (.var iterator)).1 collection
      (lowerExpr collection (n.name (.var iterator)).2).1 (meets_stmts false body _) with
      ⟨names, hnames, hlabels⟩
    have hloop := ((meets_expr collection (n.name (.var iterator)).2).append hnames).name
    rw [← hlabels] at hloop
    exact hloop.single
  | .define f body, _ =>
    ((meets_nameAll _ f.params).append (meets_stmts false body _)).name.single
  | .call _ args _, _ => (meets_exprs args _).name.single
  | .ret expression, n => (meets_expr expression n).single
  | .null, _ | .foreign, _ | .bool _, _ | .number _, _ | .var _, _ | .function _, _ | .list _, _
  | .program _, _ | .exit, _ | .shortRet, _ | .unary _ _ _, _ | .binary _ _ _ _, _
  | .conditional _ _ _ _, _ | .string _ _, _ | .array _ _, _ | .index _ _ _, _ => rfl

theorem meets_else : ∀ (s : Node) (n : Naming),
    n.Meets (elseMeetings s) (lowerElse s n).1.labels (lowerElse s n).2
  | .shortIf test consequence, n => by
    have hparts := (meets_expr test n).append (meets_stmts true consequence _)
    rw [← List.append_nil (stmtsLabels _)] at hparts
    exact hparts
  | .ifElse test consequence alternate, n =>
    (meets_expr test n).append
      ((meets_stmts true consequence _).append (meets_else alternate _))
  | .list items, n => meets_stmts true items n
  | .null, _ | .foreign, _ | .bool _, _ | .number _, _ | .var _, _ | .function _, _
  | .program _, _ | .print _, _ | .declare _ _, _ | .assign _ _, _ | .whileLoop _ _, _
  | .forLoop _ _ _ _ _, _ | .forEach _ _ _, _ | .define _ _, _ | .exit, _ | .ret _, _
  | .shortRet, _ | .call _ _ _, _ | .unary _ _ _, _ | .binary _ _ _ _, _
  | .conditional _ _ _ _, _ | .string _ _, _ | .array _ _, _ | .index _ _ _, _ => rfl

theorem meets_stmts (inBranch : Bool) : ∀ (ss : List Node) (n : Naming),
    n.Meets (stmtsMeetings ss) (stmtsLabels (lowerStmts inBranch ss n).1)
      (lowerStmts inBranch ss n).2
  | [], _ => rfl
  | s :: rest, n => (meets_stmt inBranch s n).join (meets_stmts inBranch rest _)

end

/-! ## Names of the meetings -/

/-- Two meetings are with one entity. -/
def Meeting.Same (a b : Meeting) : Prop := ∃ e, a = .entity e ∧ b = .entity e

namespace Naming

/-- A meeting is with an entity that has a name, or it is given the next number. -/
theorem meet_cases (n : Naming) (met : Meeting) :
    (∃ e, met = .entity e ∧ n.find? e = some (n.meet met).1 ∧ (n.meet met).2 = n) ∨
      (∀ e, met = .entity e → n.find? e = none) ∧
        (n.meet met).1 = ⟨met.base, n.count + 1⟩ ∧ (n.meet met).2.count = n.count + 1 := by
  cases met with
  | limit => exact .inr ⟨by simp, rfl, rfl⟩
  | entity e =>
    rw [meet, name]
    cases hfind : n.find? e with
    | some known => exact .inl ⟨e, rfl, hfind, rfl⟩
    | none =>
      refine .inr ⟨?_, rfl, rfl⟩
      intro f hf
      cases hf
      exact hfind

theorem grows_meet (n : Naming) (met : Meeting) : n.Grows (n.meet met).2 := by
  cases met with
  | entity e => exact grows_name n e
  | limit => exact grows_fresh n "limit"

theorem grows_meetAll (n : Naming) (ms : List Meeting) : n.Grows (n.meetAll ms).2 := by
  induction ms generalizing n with
  | nil => exact .refl n
  | cons met ms ih => exact (grows_meet n met).trans (ih _)

/-- Each name begins with the name under which its entity was declared. -/
def Based (n : Naming) : Prop := ∀ p ∈ n.names, p.2.base = p.1.name

theorem based_empty : Based empty := by simp [Based, empty]

theorem Based.meet {n : Naming} (h : n.Based) (met : Meeting) : (n.meet met).2.Based := by
  cases met with
  | limit => exact h
  | entity e =>
    rw [Naming.meet, Naming.name]
    cases n.find? e with
    | some known => exact h
    | none =>
      intro p hp
      rcases List.mem_append.mp hp with hp | hp
      · exact h p hp
      · rw [List.mem_singleton.mp hp]
        rfl

theorem Based.base_meet {n : Naming} (h : n.Based) (met : Meeting) :
    (n.meet met).1.base = met.base := by
  rcases meet_cases n met with ⟨e, rfl, hfind, -⟩ | ⟨-, hnew, -⟩
  · exact h _ (mem_of_find? hfind)
  · rw [hnew]

theorem Based.bases_meetAll {n : Naming} (h : n.Based) (ms : List Meeting) :
    (n.meetAll ms).1.map Name.base = ms.map Meeting.base := by
  induction ms generalizing n with
  | nil => rfl
  | cons met ms ih =>
    rw [meetAll, List.map_cons, List.map_cons, h.base_meet met, ih (h.meet met)]

theorem Based.meetAll {n : Naming} (h : n.Based) (ms : List Meeting) : (n.meetAll ms).2.Based := by
  induction ms generalizing n with
  | nil => exact h
  | cons met ms ih => exact ih (h.meet met)

theorem Based.of_meets {n m : Naming} {ms : List Meeting} {names : List Name} (h : n.Based)
    (hmeets : n.Meets ms names m) : m.Based := by
  have hbased := h.meetAll ms
  rwa [hmeets] at hbased

/-- An old name belongs to no other entity in a later naming. -/
theorem Extends.find?_iff {n final : Naming} (h : n.Extends final) {e : Entity} {x : Name}
    (hx : x.index ≤ n.count) : final.find? e = some x ↔ n.find? e = some x := by
  constructor
  · intro hfinal
    rcases h.names with ⟨more, hmore, hgreater⟩
    cases hfind : n.find? e with
    | some y => rw [← hfinal, h.find? hfind]
    | none =>
      have hlater : (e, x) ∈ more := by
        have hnone : n.names.find? (fun known => known.1 = e) = none := by
          simpa [Naming.find?] using hfind
        rw [Naming.find?, hmore, List.find?_append, hnone, Option.none_or] at hfinal
        exact mem_of_find? (n := ⟨more, 0⟩) hfinal
      have hindex := hgreater _ hlater
      simp only at hindex
      omega
  · exact h.find?

theorem Fit.index_le {n : Naming} (h : n.Fit) {e : Entity} {x : Name}
    (hx : n.find? e = some x) : x.index ≤ n.count :=
  h.below _ (mem_of_find? hx)

/-- A meeting is given an old name only if it is with the entity of the name. -/
theorem meet_eq_iff (n : Naming) (met : Meeting) {x : Name} (hx : x.index ≤ n.count) :
    (n.meet met).1 = x ↔ ∃ e, met = .entity e ∧ n.find? e = some x := by
  rcases meet_cases n met with ⟨e, rfl, hfind, -⟩ | ⟨hnone, hnew, -⟩
  · simp [hfind]
  · constructor
    · intro hsame
      rw [← hsame, hnew] at hx
      simp only at hx
      omega
    · intro hold
      rcases hold with ⟨e, he, hfind⟩
      rw [hnone e he] at hfind
      cases hfind

theorem meetAll_eq_iff (n : Naming) (ms : List Meeting) {x : Name} (hx : x.index ≤ n.count) :
    ∀ p ∈ ms.zip (n.meetAll ms).1, p.2 = x ↔ ∃ e, p.1 = .entity e ∧ n.find? e = some x := by
  induction ms generalizing n with
  | nil => simp
  | cons met ms ih =>
    intro p hp
    have hgrows := (grows_meet n met).extends_
    rw [meetAll, List.zip_cons_cons, List.mem_cons] at hp
    rcases hp with rfl | hp
    · exact meet_eq_iff n met hx
    · rw [ih _ (Nat.le_trans hx hgrows.count) p hp]
      simp only [hgrows.find?_iff hx]

/-- The name of a meeting belongs to the entity that was met, or to none. -/
theorem Fit.find?_meet_iff {n : Naming} (h : n.Fit) (met : Meeting) (e : Entity) :
    (n.meet met).2.find? e = some (n.meet met).1 ↔ met = .entity e := by
  cases met with
  | limit =>
    constructor
    · intro hfind
      have hindex := h.index_le (n := n) (e := e) hfind
      simp only [meet, fresh] at hindex
      omega
    · intro hne
      cases hne
  | entity f =>
    have hf : (n.name f).2.find? f = some (n.name f).1 := find?_name n f
    constructor
    · intro he
      have hfit := (grows_name n f).fit h
      rw [hfit.labels_unique ⟨_, hf, rfl⟩ ⟨_, he, rfl⟩]
    · intro hsame
      cases hsame
      exact hf

/-- Two meetings are given one name if and only if they are with one entity. -/
theorem Fit.pairwise_meetAll {n : Naming} (h : n.Fit) (ms : List Meeting) :
    (ms.zip (n.meetAll ms).1).Pairwise fun p q => p.2 = q.2 ↔ p.1.Same q.1 := by
  induction ms generalizing n with
  | nil => exact .nil
  | cons met ms ih =>
    have hfit := (grows_meet n met).fit h
    refine .cons ?_ (ih hfit)
    intro q hq
    have hindex : (n.meet met).1.index ≤ (n.meet met).2.count := by
      rcases meet_cases n met with ⟨e, -, hfind, hsame⟩ | ⟨-, hnew, hcount⟩
      · rw [hsame]
        exact h.index_le hfind
      · have hnext : (n.meet met).1.index = n.count + 1 := congrArg Name.index hnew
        omega
    rw [eq_comm, meetAll_eq_iff _ ms hindex q hq]
    simp only [h.find?_meet_iff met, Meeting.Same, and_comm]

/-- The numbers beyond those that were used up come in order. -/
theorem Fit.eraseDups_meetAll {n : Naming} (h : n.Fit) (ms : List Meeting) :
    (((n.meetAll ms).1.map Name.index).filter (n.count < ·)).eraseDups =
      List.range' (n.count + 1) ((n.meetAll ms).2.count - n.count) := by
  induction ms generalizing n with
  | nil => simp [meetAll]
  | cons met ms ih =>
    have htail := ih ((grows_meet n met).fit h)
    have hgrows := (grows_meetAll (n.meet met).2 ms).extends_.count
    rw [meetAll, List.map_cons]
    rcases meet_cases n met with ⟨e, -, hfind, hsame⟩ | ⟨-, hnew, hcount⟩
    · -- The entity has a name, whose number was used up before.
      have hold := h.index_le hfind
      rw [List.filter_cons_of_neg (by simpa using hold)]
      rw [hsame] at htail ⊢
      exact htail
    · -- The next number is given, and all later ones are greater or equal to it.
      rw [hcount] at htail hgrows
      rw [hnew, List.filter_cons_of_pos (by simp), List.eraseDups_cons, List.filter_filter]
      have hlater : ∀ i : Nat, ((!i == n.count + 1) && decide (n.count < i)) =
          decide (n.count + 1 < i) := by
        intro i
        rw [Bool.eq_iff_iff]
        simp
        omega
      simp only [hlater, htail]
      obtain ⟨d, hd⟩ := Nat.exists_eq_add_of_le hgrows
      rw [hd, Nat.add_sub_cancel_left, Nat.add_assoc n.count 1 d, Nat.add_sub_cancel_left,
        Nat.add_comm 1 d, List.range'_succ]

end Naming

/-! ## Texts of the names -/

/-- A text ends in an underscore and a number. -/
def endsInNumber (text : String) : Bool :=
  let backwards := text.toList.reverse
  !(backwards.takeWhile Char.isDigit).isEmpty &&
    (backwards.dropWhile Char.isDigit).head? = some '_'

theorem Name.endsInNumber_text (n : Name) : endsInNumber n.text = true := by
  have hdigits : ∀ c ∈ (Nat.toDigits 10 n.index).reverse, c.isDigit = true := by
    intro c hc
    exact Nat.isDigit_of_mem_toDigits (b := 10) (by decide) (by decide) (List.mem_reverse.mp hc)
  rw [endsInNumber, Name.toList_text, List.reverse_append, List.reverse_cons, List.append_assoc,
    List.takeWhile_append_of_pos hdigits, List.dropWhile_append_of_pos hdigits]
  simp [Nat.toDigits_ne_nil]

/-! ## Emitted programs -/

/-- The names that some meetings are given: each has the base of what was met, two
of them have one text if and only if they stand for one entity, their numbers count up
in the order of first meetings, and all of them end in their numbers. -/
structure WellNamed (met : List Meeting) (names : List Name) (count : Nat) : Prop where
  bases : names.map Name.base = met.map Meeting.base
  apart : (met.zip names).Pairwise fun p q => p.2.text = q.2.text ↔ p.1.Same q.1
  numbered : (names.map Name.index).eraseDups = List.range' 1 count
  ends : ∀ name ∈ names, endsInNumber name.text = true

/-- A naming without names gives no name that was used up. -/
theorem pos_of_mem_meetAll {ms : List Meeting} {x : Name}
    (hx : x ∈ (Naming.empty.meetAll ms).1) : 0 < x.index := by
  by_contra hzero
  have hlength : (Naming.empty.meetAll ms).1.length ≤ ms.length := by
    simpa using Nat.le_of_eq (congrArg List.length (based_empty.bases_meetAll ms))
  rw [← List.map_snd_zip hlength] at hx
  rcases List.mem_map.mp hx with ⟨p, hp, rfl⟩
  rcases (meetAll_eq_iff empty ms (Nat.le_of_not_lt hzero) p hp).mp rfl with ⟨e, -, hfind⟩
  cases hfind

theorem wellNamed_meetAll (ms : List Meeting) :
    WellNamed ms (Naming.empty.meetAll ms).1 (Naming.empty.meetAll ms).2.count where
  bases := based_empty.bases_meetAll ms
  apart := by
    refine (fit_empty.pairwise_meetAll ms).imp ?_
    intro p q hnames
    exact ⟨fun htext => hnames.mp (Name.text_injective htext),
      fun hsame => congrArg Name.text (hnames.mpr hsame)⟩
  numbered := by
    have hnumbered := fit_empty.eraseDups_meetAll ms
    have hpos : ∀ i ∈ (Naming.empty.meetAll ms).1.map Name.index,
        decide (empty.count < i) = true := by
      intro i hi
      rcases List.mem_map.mp hi with ⟨x, hx, rfl⟩
      exact decide_eq_true (pos_of_mem_meetAll hx)
    rw [List.filter_eq_self.mpr hpos] at hnumbered
    exact hnumbered
  ends := fun name _ => name.endsInNumber_text

/-- What an emitter did before makes no difference. -/
theorem Emitter.emit_fst (m : Emitter) (statements : List Node) :
    (m.emit statements).1 = Js.emit statements := by
  rw [Emitter.emit, Js.emit]
  cases stmtsFault? statements with
  | none => rfl
  | some fault => rfl

theorem wellNamed_emit {statements : List Node} {e : Emitted} (h : Js.emit statements = .ok e) :
    WellNamed (stmtsMeetings statements) (stmtsLabels e.program) e.naming.count := by
  have hmeets := meets_stmts false statements .empty
  have hnamed := wellNamed_meetAll (stmtsMeetings statements)
  rw [hmeets] at hnamed
  rw [Js.emit] at h
  split at h
  · cases h
  · cases h
    exact hnamed

/-- The names of an emitted program are those of its meetings and are well named,
whatever the emitter did before.  None of them is a text without a number at its end, so
none is the helper or a global that the templates use. -/
theorem emitted_names_apart (m : Emitter) {statements : List Node} {e : Emitted}
    (h : (m.emit statements).1 = .ok e) :
    WellNamed (stmtsMeetings statements) (stmtsLabels e.program) e.naming.count ∧
      (∀ name ∈ stmtsLabels e.program, ∀ text, endsInNumber text = false → name.text ≠ text) ∧
      ∀ name ∈ stmtsLabels e.program, name.text ∉ ["_iter", "console", "Array"] := by
  rw [m.emit_fst] at h
  have hnamed := wellNamed_emit h
  have hother : ∀ name ∈ stmtsLabels e.program, ∀ text, endsInNumber text = false →
      name.text ≠ text := by
    intro name hname text htext hsame
    rw [← hsame, hnamed.ends name hname] at htext
    cases htext
  refine ⟨hnamed, hother, ?_⟩
  intro name hname hmem
  have hreserved : ∀ text ∈ ["_iter", "console", "Array"], endsInNumber text = false := by
    decide
  exact hother name hname _ (hreserved _ hmem) rfl

/-- An emitter that gave a name in a program with an obstacle. -/
def usedEmitter : Emitter := (Emitter.new.emit [.print (.var ⟨7, "x", .any⟩), .foreign]).2

/-- A function `_` that counts up to its parameter `limit` with a counter `x_1`, behind a
variable `x` and one that is called `x_1` too. -/
def crowdedNames : List Node :=
  [.declare ⟨0, "x", .boolean⟩ (.bool true),
    .declare ⟨1, "x_1", .boolean⟩ (.var ⟨0, "x", .boolean⟩),
    .define ⟨2, "_", [⟨3, "limit", .int⟩]⟩
      [.forEach ⟨4, "x_1", .int⟩ (.var ⟨3, "limit", .int⟩)
        [.print (.var ⟨4, "x_1", .int⟩), .print (.var ⟨1, "x_1", .boolean⟩)]]]

theorem crowdedNames_apart :
    ∃ e, (usedEmitter.emit crowdedNames).1 = .ok e ∧ usedEmitter.naming.count = 1 ∧
      (stmtsLabels e.program).map Name.text =
        ["x_1", "x_1", "x_1_2", "__3", "limit_4", "x_1_5", "limit_4", "limit_6", "x_1_5", "x_1_2"] ∧
      WellNamed (stmtsMeetings crowdedNames) (stmtsLabels e.program) e.naming.count := by
  refine ⟨_, rfl, rfl, by decide, ?_⟩
  exact (emitted_names_apart usedEmitter rfl).1

end Squishc.Js
