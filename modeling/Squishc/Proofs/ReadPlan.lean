import Squishc.Proofs.ReadLevels
import Squishc.Proofs.ReadPrinted

/-!
# Readers without their trees

A reader chooses its way by the next two lexemes and the header mode and never by
what it has read before.  So its way through the tokens is described by a plan: a
term over a few moves of a cursor, in which the readers call one another by name.
Running a plan gives the cursor behind the tokens, or a halt that remembers the
cursor at which reading stopped.

There are three layers of plans, as there are three layers of readers: the parts of a
line, with expressions and parameters, the statements around them, and the program.
The fuel of a layer is not the fuel of the layer below, whose calls are run to their
end.

Main results:

- Theorem `LineRule.expr_follows` and the theorems beside it: the readers of
  expressions end where their plans end.
- Theorem `StmtRule.stmt_follows` and the theorems beside it: so do the readers of
  statements.
-/

namespace Squishc.Surface

/-- Why a plan cannot go on, and the cursor where it cannot. -/
inductive Halt where
  | missing (what : Expected) (c : Cursor)
  | tooLong (c : Cursor)
  | outOfFuel

/-- The fault that a reader reports in the place of a halt. -/
def Halt.fault : Halt → ReadFault
  | missing what c => c.missing what
  | tooLong _ => .digitLimit
  | outOfFuel => .outOfFuel

/-- What moves a cursor over some tokens. -/
abbrev Move := Cursor → Except Halt Cursor

/-- The lexeme behind the next one, or the last one if there is none. -/
def Cursor.second? (c : Cursor) : Option Lexeme := (c.peek? 1).map Token.lexeme

/-- A way through the tokens, with calls of the rules of a layer and of the layer
below. -/
inductive Plan (ρ σ : Type) where
  /-- Takes nothing. -/
  | done
  /-- Takes the given terminal. -/
  | take (t : Terminal)
  /-- Takes a name. -/
  | takeName
  /-- Takes an integer that is not too long. -/
  | takeInt
  /-- Takes any token but the end mark. -/
  | skip
  /-- Asks for something that is not there. -/
  | fail (what : Expected)
  /-- Follows a rule of the layer. -/
  | rule (r : ρ)
  /-- Follows a rule of the layer below. -/
  | lower (r : σ)
  /-- Follows a plan in the given header mode. -/
  | inMode (mode : Bool) (plan : Plan ρ σ)
  /-- Follows one plan and then another. -/
  | seq (first second : Plan ρ σ)
  /-- Chooses a plan by the next two lexemes and the header mode. -/
  | look (choose : Option Lexeme → Option Lexeme → Bool → Plan ρ σ)

namespace Plan

variable {ρ σ : Type}

/-- Runs a plan, given what its calls do. -/
def exec (calls : ρ → Move) (below : σ → Move) : Plan ρ σ → Move
  | done, c => .ok c
  | take t, c => if c.isAt t then .ok c.next else .error (.missing (.terminal t) c)
  | takeName, c => if c.atName then .ok c.next else .error (.missing .identifier c)
  | takeInt, c =>
    match c.lexeme? with
    | some (.int digits) =>
      if digits.length ≤ digitLimit then .ok c.next else .error (.tooLong c)
    | _ => .error (.missing .expression c)
  | skip, c =>
    match c.lexeme? with
    | none | some .eof => .error (.missing .expression c)
    | some _ => .ok c.next
  | fail what, c => .error (.missing what c)
  | rule r, c => calls r c
  | lower r, c => below r c
  | inMode mode plan, c =>
    (plan.exec calls below (c.withHeader mode)).map (·.withHeader c.inHeader)
  | seq first second, c => first.exec calls below c >>= second.exec calls below
  | look choose, c => (choose c.lexeme? c.second? c.inHeader).exec calls below c

/-- Follows the first plan if the given terminal is next. -/
def ifAt (t : Terminal) (yes no : Plan ρ σ) : Plan ρ σ :=
  look fun x _ _ => if x.any t.isMetBy then yes else no

/-- Takes the given terminal and follows a plan behind it. -/
def after (t : Terminal) (plan : Plan ρ σ) : Plan ρ σ := seq (take t) plan

/-- Follows a rule of a layer, with a bound on the depth of calls. -/
def run (plan : ρ → Plan ρ σ) (below : σ → Move) : Nat → ρ → Move
  | 0, _, _ => .error .outOfFuel
  | fuel + 1, r, c => (plan r).exec (run plan below fuel) below c

end Plan

/-- Whether an expression can begin with a lexeme. -/
def startsExpr : Lexeme → Bool
  | .int _ | .float _ | .string _ | .name _ => true
  | .keyword .true_ | .keyword .false_ => true
  | .symbol .openParen | .symbol .openBracket => true
  | .symbol .minus | .symbol .bang => true
  | _ => false

/-- Whether a lexeme is a name. -/
def isName : Lexeme → Bool
  | .name _ => true
  | _ => false

namespace Cursor

theorem isAt_eq_any (c : Cursor) (t : Terminal) : c.isAt t = c.lexeme?.any t.isMetBy := by
  rcases c with ⟨_ | ⟨t, rest⟩, mode⟩ <;> rfl

theorem secondIs_eq_any (c : Cursor) (t : Terminal) : c.secondIs t = c.second?.any t.isMetBy := by
  unfold secondIs second?
  cases c.peek? 1 <;> rfl

theorem atEnd_eq (c : Cursor) : c.atEnd = (c.lexeme? == some .eof) := by
  rcases c with ⟨_ | ⟨t, rest⟩, mode⟩ <;> rfl

theorem atExpr_eq_any (c : Cursor) : c.atExpr = c.lexeme?.any startsExpr := by
  unfold atExpr startsExpr
  cases c.lexeme? with
  | none => rfl
  | some l => rcases l with _ | _ | _ | _ | ⟨⟨⟩⟩ | ⟨⟨⟩⟩ | _ <;> rfl

theorem atName_eq_any (c : Cursor) : c.atName = c.lexeme?.any isName := by
  unfold atName
  cases c.lexeme? with
  | none => rfl
  | some l => cases l <;> rfl

end Cursor

theorem Plan.exec_ifAt {ρ σ : Type} (calls : ρ → Move) (below : σ → Move) (t : Terminal)
    (yes no : Plan ρ σ) (c : Cursor) :
    (Plan.ifAt t yes no).exec calls below c =
      if c.isAt t then yes.exec calls below c else no.exec calls below c := by
  rw [Cursor.isAt_eq_any, Plan.ifAt, exec]
  split <;> rfl

/-! ## Readers that follow a plan -/

/-- The outcome of a reader, without what is read, is the outcome of a move. -/
def Follows {α : Type} (r : Reading (α × Cursor)) (s : Except Halt Cursor) : Prop :=
  r.map Prod.snd = s.mapError Halt.fault

-- The equations of `exec` are derived here, once, and not by each proof below.
section

attribute [local simp] Plan.exec

end

namespace Follows

variable {α β ρ σ : Type} {r : Reading (α × Cursor)} {s : Except Halt Cursor} {c : Cursor}
  {calls : ρ → Move} {below : σ → Move} {g : Move}

theorem ok (a : α) (c : Cursor) : Follows (.ok (a, c)) (.ok c) := rfl

theorem missing (what : Expected) (c : Cursor) :
    Follows (α := α) (.error (c.missing what)) (.error (.missing what c)) := rfl

theorem exists_ok (h : Follows r (.ok c)) : ∃ a, r = .ok (a, c) := by
  rcases r with fault | ⟨a, c'⟩
  · cases h
  · obtain rfl : c' = c := Except.ok.inj h
    exact ⟨a, rfl⟩

theorem eq_error {halt : Halt} (h : Follows r (.error halt)) : r = .error halt.fault := by
  rcases r with fault | ⟨a, c'⟩
  · exact congrArg Except.error (Except.error.inj h)
  · cases h

theorem bind {f : α × Cursor → Reading (β × Cursor)} (h : Follows r s)
    (hf : ∀ a c, Follows (f (a, c)) (g c)) : Follows (r >>= f) (s >>= g) := by
  cases s with
  | error halt =>
    rw [h.eq_error]
    rfl
  | ok c =>
    obtain ⟨a, rfl⟩ := h.exists_ok
    exact hf a c

/-- What a reader makes of what was read leaves the cursor alone. -/
theorem mapped {f : α × Cursor → Reading (β × Cursor)} (h : Follows r s)
    (hf : ∀ a c, Follows (f (a, c)) (.ok c)) : Follows (r >>= f) s := by
  rw [← bind_pure s]
  exact h.bind hf

theorem inMode_bind {mode : Bool} {plan : Plan ρ σ} {f : α × Cursor → Reading (β × Cursor)}
    (h : Follows r (plan.exec calls below (c.withHeader mode)))
    (hf : ∀ a after, Follows (f (a, after)) (g (after.withHeader c.inHeader))) :
    Follows (r >>= f) ((Plan.inMode mode plan).exec calls below c >>= g) := by
  have hmap : (Plan.inMode mode plan).exec calls below c >>= g =
      plan.exec calls below (c.withHeader mode) >>= fun d => g (d.withHeader c.inHeader) := by
    rw [Plan.exec]
    cases plan.exec calls below (c.withHeader mode) <;> rfl
  rw [hmap]
  exact h.bind hf

theorem inMode {mode : Bool} {plan : Plan ρ σ}
    (h : Follows r (plan.exec calls below (c.withHeader mode))) :
    Follows (r >>= fun (a, after) => .ok (a, after.withHeader c.inHeader))
      ((Plan.inMode mode plan).exec calls below c) := by
  rw [← bind_pure ((Plan.inMode mode plan).exec calls below c)]
  exact h.inMode_bind fun _ _ => rfl

theorem expect (t : Terminal) {f : Cursor → Reading (β × Cursor)}
    (hf : ∀ c, Follows (f c) (g c)) :
    Follows (c.expect t >>= f) ((Plan.take t).exec calls below c >>= g) := by
  unfold Cursor.expect Plan.exec
  split
  · exact hf c.next
  · rfl

theorem expectLast (t : Terminal) {f : Cursor → Reading (β × Cursor)}
    (hf : ∀ c, Follows (f c) (.ok c)) :
    Follows (c.expect t >>= f) ((Plan.take t).exec calls below c) := by
  unfold Cursor.expect Plan.exec
  split
  · exact hf c.next
  · rfl

theorem expectName (c : Cursor) : Follows c.expectName (Plan.takeName.exec calls below c) := by
  unfold Cursor.expectName Plan.exec Cursor.atName
  cases c.lexeme? with
  | none => rfl
  | some l => cases l <;> rfl

theorem param (c : Cursor) : Follows c.param (Plan.takeName.exec calls below c) :=
  (expectName c).mapped fun _ _ => rfl

/-- A token that is read on its own. -/
theorem leaf {l : Lexeme} {a : α} (hl : c.lexeme? = some l) (hend : l ≠ .eof) :
    Follows (.ok (a, c.next)) (Plan.skip.exec calls below c) := by
  rw [Plan.exec, hl]
  cases l with
  | eof => exact absurd rfl hend
  | _ => exact ok a c.next

theorem ifAt {t : Terminal} {yes no : Plan ρ σ} {r' : Reading (α × Cursor)}
    (hyes : c.isAt t = true → Follows r (yes.exec calls below c))
    (hno : ¬ c.isAt t = true → Follows r' (no.exec calls below c)) :
    Follows (if c.isAt t then r else r') ((Plan.ifAt t yes no).exec calls below c) := by
  rw [Plan.exec_ifAt]
  split
  · exact hyes ‹_›
  · exact hno ‹_›

/-- Where a terminal is known to be next, taking it is a step ahead. -/
theorem after {t : Terminal} {plan : Plan ρ σ} (hat : c.isAt t = true)
    (h : Follows r (plan.exec calls below c.next)) :
    Follows r ((Plan.after t plan).exec calls below c) := by
  rw [Plan.after, Plan.exec, Plan.exec, if_pos hat]
  exact h

/-- Where a lexeme stands for something, taking it is a step ahead. -/
theorem skip {plan : Plan ρ σ} {meaning? : Lexeme → Option β} {b : β}
    (hat : c.lexeme?.bind meaning? = some b) (hend : meaning? .eof = none)
    (h : Follows r (plan.exec calls below c.next)) :
    Follows r ((Plan.seq .skip plan).exec calls below c) := by
  rw [Plan.exec, Plan.exec]
  cases hl : c.lexeme? with
  | none => simp [hl] at hat
  | some l =>
    cases l with
    | eof => simp [hl, hend] at hat
    | _ => exact h

end Follows

/-! ## Expressions and parameters -/

/-- The rules for the parts of a line. -/
inductive LineRule where
  | expr
  | nested
  | level (l : Level)
  | operand (l : Level)
  | levelRest (l : Level)
  | unary
  | power
  | indexed
  | indexes
  | primary
  | call
  | arguments
  | brackets
  | elements (single : Bool)
  | moreParams

namespace LineRule

open Plan

/-- Parentheses around an expression. -/
def grouped : Plan LineRule Empty :=
  after (.symbol .openParen) (seq (rule .nested) (take (.symbol .closeParen)))

/-- A name, which begins a call if a colon follows outside of headers. -/
def named : Plan LineRule Empty :=
  look fun _ y header =>
    if !header && y.any (Terminal.symbol .colon).isMetBy then rule .call else takeName

/-- The plan of a rule. -/
def plan : LineRule → Plan LineRule Empty
  | .expr =>
    seq (rule (.level .disjunction))
      (ifAt (.keyword .if_)
        (after (.keyword .if_)
          (seq (rule (.level .disjunction)) (after (.keyword .otherwise) (rule .expr))))
        done)
  | .nested => inMode false (rule .expr)
  | .level l => seq (rule (.operand l)) (rule (.levelRest l))
  | .operand l =>
    match l.tighter? with
    | some tighter => rule (.level tighter)
    | none => rule .unary
  | .levelRest l =>
    look fun x _ _ =>
      if (x.bind l.op?).isSome then
        seq skip (seq (rule (.operand l)) (if l.chains then rule (.levelRest l) else done))
      else
        done
  | .unary =>
    look fun x _ _ => if (x.bind signOp?).isSome then seq skip (rule .unary) else rule .power
  | .power =>
    seq (rule .indexed)
      (ifAt (.symbol .pow) (after (.symbol .pow) (rule .unary)) done)
  | .indexed => seq (rule .primary) (rule .indexes)
  | .indexes =>
    ifAt (.symbol .openBracket)
      (after (.symbol .openBracket)
        (seq (rule .nested) (after (.symbol .closeBracket) (rule .indexes))))
      done
  | .primary =>
    look fun x _ _ =>
      match x with
      | some (.int _) => takeInt
      | some (.float _) | some (.string _) => skip
      | some (.keyword .true_) | some (.keyword .false_) => skip
      | some (.name _) => named
      | some (.symbol .openParen) => grouped
      | some (.symbol .openBracket) => rule .brackets
      | _ => fail .expression
  | .call =>
    seq takeName (after (.symbol .colon)
      (look fun x _ _ =>
        if x.any startsExpr then seq (rule .expr) (rule .arguments) else done))
  | .arguments =>
    ifAt (.symbol .comma)
      (after (.symbol .comma) (seq (rule .expr) (rule .arguments)))
      done
  | .brackets =>
    after (.symbol .openBracket)
      (ifAt (.symbol .closeBracket)
        (take (.symbol .closeBracket))
        (seq (rule .nested)
          (ifAt (.symbol .comma)
            (seq (rule (.elements true)) (take (.symbol .closeBracket)))
            (take (.symbol .closeBracket)))))
  | .elements single =>
    ifAt (.symbol .comma)
      (after (.symbol .comma)
        (look fun x _ _ =>
          if single && x.any (Terminal.symbol .closeBracket).isMetBy then done
          else seq (rule .nested) (rule (.elements false))))
      done
  | .moreParams =>
    ifAt (.symbol .comma) (after (.symbol .comma) (seq takeName (rule .moreParams))) done

/-- Follows a rule, with a bound on the depth of calls. -/
def run : Nat → LineRule → Move := Plan.run plan nofun

theorem run_succ (fuel : Nat) (r : LineRule) (c : Cursor) :
    run (fuel + 1) r c = r.plan.exec (run fuel) nofun c := rfl

mutual

theorem expr_follows : ∀ fuel c, Follows (ReadExpr.expr fuel c) (run fuel .expr c)
  | 0, _ => rfl
  | fuel + 1, c => by
    rw [ReadExpr.expr]
    refine (level_follows fuel .disjunction c).bind fun e c => ?_
    refine Follows.ifAt (fun hat => ?_) fun _ => Follows.ok e c
    refine Follows.after hat ((level_follows fuel .disjunction c.next).bind fun test c => ?_)
    refine Follows.expect _ fun c => ?_
    exact (expr_follows fuel c).mapped fun _ _ => rfl

theorem nested_follows : ∀ fuel c, Follows (ReadExpr.nested fuel c) (run fuel .nested c)
  | 0, _ => rfl
  | fuel + 1, c => by
    rw [ReadExpr.nested]
    exact (expr_follows fuel (c.withHeader false)).inMode

theorem level_follows : ∀ fuel l c, Follows (ReadExpr.level fuel l c) (run fuel (.level l) c)
  | 0, _, _ => rfl
  | fuel + 1, l, c => by
    rw [ReadExpr.level]
    exact (operand_follows fuel l c).bind fun left c => levelRest_follows fuel l left c

theorem operand_follows :
    ∀ fuel l c, Follows (ReadExpr.operand fuel l c) (run fuel (.operand l) c)
  | 0, _, _ => rfl
  | fuel + 1, l, c => by
    rw [ReadExpr.operand, run_succ, plan]
    cases l.tighter? with
    | some tighter => exact level_follows fuel tighter c
    | none => exact unary_follows fuel c

theorem levelRest_follows : ∀ fuel l left c,
    Follows (ReadExpr.levelRest fuel l left c) (run fuel (.levelRest l) c)
  | 0, _, _, _ => rfl
  | fuel + 1, l, left, c => by
    rw [ReadExpr.levelRest, run_succ, plan, exec]
    cases hop : c.lexeme?.bind l.op? with
    | none => exact Follows.ok left c
    | some op =>
      refine Follows.skip hop (by cases l <;> rfl) ?_
      refine (operand_follows fuel l c.next).bind fun right c => ?_
      cases l.chains with
      | true => exact levelRest_follows fuel l _ c
      | false => exact Follows.ok _ c

theorem unary_follows : ∀ fuel c, Follows (ReadExpr.unary fuel c) (run fuel .unary c)
  | 0, _ => rfl
  | fuel + 1, c => by
    rw [ReadExpr.unary, run_succ, plan, exec]
    cases hop : c.lexeme?.bind signOp? with
    | some op => exact Follows.skip hop rfl ((unary_follows fuel c.next).mapped fun _ _ => rfl)
    | none => exact power_follows fuel c

theorem power_follows : ∀ fuel c, Follows (ReadExpr.power fuel c) (run fuel .power c)
  | 0, _ => rfl
  | fuel + 1, c => by
    rw [ReadExpr.power]
    refine (indexed_follows fuel c).bind fun base c => ?_
    refine Follows.ifAt (fun hat => ?_) fun _ => Follows.ok base c
    exact Follows.after hat ((unary_follows fuel c.next).mapped fun _ _ => rfl)

theorem indexed_follows : ∀ fuel c, Follows (ReadExpr.indexed fuel c) (run fuel .indexed c)
  | 0, _ => rfl
  | fuel + 1, c => by
    rw [ReadExpr.indexed]
    exact (primary_follows fuel c).bind fun e c => indexes_follows fuel e c

theorem indexes_follows : ∀ fuel e c, Follows (ReadExpr.indexes fuel e c) (run fuel .indexes c)
  | 0, _, _ => rfl
  | fuel + 1, e, c => by
    rw [ReadExpr.indexes]
    refine Follows.ifAt (fun hat => ?_) fun _ => Follows.ok e c
    refine Follows.after hat ((nested_follows fuel c.next).bind fun i c => ?_)
    exact Follows.expect _ fun c => indexes_follows fuel _ c

theorem primary_follows : ∀ fuel c, Follows (ReadExpr.primary fuel c) (run fuel .primary c)
  | 0, _ => rfl
  | fuel + 1, c => by
    rw [ReadExpr.primary, run_succ, plan, exec]
    cases hl : c.lexeme? with
    | none => exact Follows.missing .expression c
    | some l =>
      cases l with
      | int digits =>
        -- the one leaf that may halt behind its lexeme: its numeral may be too long
        dsimp only
        rw [exec, hl]
        dsimp only
        split
        · exact Follows.ok _ _
        · rfl
      | float numeral => exact Follows.leaf hl nofun
      | string value => exact Follows.leaf hl nofun
      | name text =>
        dsimp only
        rw [Cursor.secondIs_eq_any, named, exec]
        split
        · exact (call_follows fuel c).mapped fun _ _ => rfl
        · rw [exec, Cursor.atName, hl]
          exact Follows.ok _ c.next
      | keyword word =>
        cases word with
        | true_ => exact Follows.leaf hl nofun
        | false_ => exact Follows.leaf hl nofun
        | _ => exact Follows.missing .expression c
      | symbol mark =>
        cases mark with
        | openParen =>
          refine Follows.after (by rw [Cursor.isAt_eq hl]; rfl) ?_
          refine (nested_follows fuel c.next).bind fun e c => ?_
          exact Follows.expectLast _ fun _ => rfl
        | openBracket => exact brackets_follows fuel c
        | _ => exact Follows.missing .expression c
      | eof => exact Follows.missing .expression c

theorem call_follows : ∀ fuel c, Follows (ReadExpr.call fuel c) (run fuel .call c)
  | 0, _ => rfl
  | fuel + 1, c => by
    rw [ReadExpr.call]
    refine (Follows.expectName c).bind fun callee c => Follows.expect _ fun c => ?_
    rw [Cursor.atExpr_eq_any, exec]
    split
    · refine (expr_follows fuel c).bind fun first c => ?_
      exact (arguments_follows fuel c).mapped fun _ _ => rfl
    · exact Follows.ok _ c

theorem arguments_follows :
    ∀ fuel c, Follows (ReadExpr.arguments fuel c) (run fuel .arguments c)
  | 0, _ => rfl
  | fuel + 1, c => by
    rw [ReadExpr.arguments]
    refine Follows.ifAt (fun hat => ?_) fun _ => Follows.ok _ c
    refine Follows.after hat ((expr_follows fuel c.next).bind fun e c => ?_)
    exact (arguments_follows fuel c).mapped fun _ _ => rfl

theorem brackets_follows : ∀ fuel c, Follows (ReadExpr.brackets fuel c) (run fuel .brackets c)
  | 0, _ => rfl
  | fuel + 1, c => by
    rw [ReadExpr.brackets]
    refine Follows.expect _ fun d => Follows.ifAt (fun hat => ?_) fun _ => ?_
    · rw [exec, if_pos hat]
      exact Follows.ok _ _
    · refine (nested_follows fuel d).bind fun first d => ?_
      refine Follows.ifAt (fun _ => ?_) fun _ => Follows.expectLast _ fun _ => rfl
      refine (elements_follows fuel true d).bind fun others d => ?_
      exact Follows.expectLast _ fun _ => rfl

theorem elements_follows : ∀ fuel single c,
    Follows (ReadExpr.elements fuel single c) (run fuel (.elements single) c)
  | 0, _, _ => rfl
  | fuel + 1, single, c => by
    rw [ReadExpr.elements]
    refine Follows.ifAt (fun hat => Follows.after hat ?_) fun _ => Follows.ok _ c
    rw [Cursor.isAt_eq_any, exec]
    split
    · exact Follows.ok _ _
    · refine (nested_follows fuel c.next).bind fun e c => ?_
      exact (elements_follows fuel false c).mapped fun _ _ => rfl

end

theorem moreParams_follows :
    ∀ fuel c, Follows (ReadStmt.moreParams fuel c) (run fuel .moreParams c)
  | 0, _ => rfl
  | fuel + 1, c => by
    rw [ReadStmt.moreParams]
    refine Follows.ifAt (fun hat => ?_) fun _ => Follows.ok _ c
    refine Follows.after hat ((Follows.param c.next).bind fun p c => ?_)
    exact (moreParams_follows fuel c).mapped fun _ _ => rfl

/-- Follows a rule to its end. -/
def full (r : LineRule) : Move := fun c => run c.fuelFor r c

end LineRule

/-! ## Statements -/

/-- The rules for statements. -/
inductive StmtRule where
  | stmt
  | stmtsUntil (terminals : List Terminal)
  | block
  | branch
  | whileLoop
  | forLoop
  | forEach
  | function

namespace StmtRule

open Plan

/-- An expression in which a colon ends the expression. -/
def headerExpr : Plan StmtRule LineRule := inMode true (lower .expr)

/-- `value ;` -/
def valueRest : Plan StmtRule LineRule := seq (lower .expr) (take (.symbol .semicolon))

/-- `= value ;` -/
def bindingRest : Plan StmtRule LineRule := after (.symbol .assign) valueRest

def assignment : Plan StmtRule LineRule := seq takeName bindingRest

def declaration : Plan StmtRule LineRule := after (.keyword .pencil) assignment

def print : Plan StmtRule LineRule := after (.keyword .speak) valueRest

def exit : Plan StmtRule LineRule := after (.keyword .break_) (take (.symbol .semicolon))

def ret : Plan StmtRule LineRule :=
  after (.keyword .return_)
    (ifAt (.symbol .semicolon) (take (.symbol .semicolon)) valueRest)

def callStmt : Plan StmtRule LineRule := seq (lower .call) (take (.symbol .semicolon))

/-- A colon and statements up to `stop`. -/
def body : Plan StmtRule LineRule := after (.symbol .colon) (rule .block)

def params : Plan StmtRule LineRule :=
  look fun x _ _ => if x.any isName then seq takeName (lower .moreParams) else done

/-- What follows `else`. -/
def alternative : Plan StmtRule LineRule :=
  after (.keyword .else_) (ifAt (.keyword .if_) (rule .branch) (rule .block))

/-- What follows the body of a branch. -/
def branchRest : Plan StmtRule LineRule :=
  look fun x y _ =>
    if x.any (Terminal.keyword .stop).isMetBy && y.any (Terminal.keyword .else_).isMetBy then
      after (.keyword .stop) alternative
    else
      ifAt (.keyword .else_) alternative (take (.keyword .stop))

/-- A statement that begins with no word of its own. -/
def wordless : Plan StmtRule LineRule :=
  look fun x y _ =>
    if x.any isName && y.any (Terminal.symbol .assign).isMetBy then assignment
    else if x.any isName && y.any (Terminal.symbol .colon).isMetBy then callStmt
    else rule .forEach

/-- The plan of a rule. -/
def plan : StmtRule → Plan StmtRule LineRule
  | .stmt =>
    ifAt (.keyword .speak) print <|
    ifAt (.keyword .pencil) declaration <|
    ifAt (.keyword .if_) (rule .branch) <|
    ifAt (.keyword .while_) (rule .whileLoop) <|
    ifAt (.keyword .for_) (rule .forLoop) <|
    ifAt (.keyword .fn) (rule .function) <|
    ifAt (.keyword .break_) exit <|
    ifAt (.keyword .return_) ret wordless
  | .stmtsUntil terminals =>
    look fun x _ _ =>
      if terminals.any (fun t => x.any t.isMetBy) then done
      else if x == some .eof then fail (.terminal (.keyword .stop))
      else seq (rule .stmt) (rule (.stmtsUntil terminals))
  | .block => seq (rule (.stmtsUntil [.keyword .stop])) (take (.keyword .stop))
  | .branch =>
    after (.keyword .if_) <| seq headerExpr <| after (.symbol .colon) <|
      seq (rule (.stmtsUntil [.keyword .stop, .keyword .else_])) branchRest
  | .whileLoop => after (.keyword .while_) (seq headerExpr body)
  | .forLoop =>
    after (.keyword .for_) <| seq declaration <| after (.keyword .stop) <|
      seq headerExpr <| after (.keyword .fastfwd) <| seq assignment (rule .block)
  | .forEach =>
    seq (inMode true (lower .indexed)) <| after (.symbol .dot) <| after (.keyword .loop) <|
      seq takeName body
  | .function => after (.keyword .fn) <| seq takeName <| seq params body

/-- Follows a rule, with a bound on the depth of calls. -/
def run : Nat → StmtRule → Move := Plan.run plan LineRule.full

theorem run_succ (fuel : Nat) (r : StmtRule) (c : Cursor) :
    run (fuel + 1) r c = r.plan.exec (run fuel) LineRule.full c := rfl

variable {calls : StmtRule → Move}

theorem expr_follows (c : Cursor) :
    Follows c.expr ((lower .expr : Plan StmtRule LineRule).exec calls LineRule.full c) :=
  LineRule.expr_follows c.fuelFor c

theorem headerExpr_follows (c : Cursor) :
    Follows c.headerExpr (headerExpr.exec calls LineRule.full c) :=
  (expr_follows (c.withHeader true)).inMode

theorem bindingRest_follows (c : Cursor) (start : Pos) (name : String) :
    Follows (c.bindingRest start name) (bindingRest.exec calls LineRule.full c) := by
  refine Follows.expect _ fun c => (expr_follows c).bind fun value c => ?_
  exact Follows.expectLast _ fun _ => rfl

theorem assignment_follows (c : Cursor) :
    Follows c.assignment (assignment.exec calls LineRule.full c) :=
  (Follows.expectName c).bind fun name c => bindingRest_follows c _ name

theorem declaration_follows (c : Cursor) :
    Follows c.declaration (declaration.exec calls LineRule.full c) := by
  refine Follows.expect _ fun c => (Follows.expectName c).bind fun name c => ?_
  exact bindingRest_follows c _ name

theorem print_follows (c : Cursor) : Follows c.print (print.exec calls LineRule.full c) := by
  refine Follows.expect _ fun c => (expr_follows c).bind fun value c => ?_
  exact Follows.expectLast _ fun _ => rfl

theorem exit_follows (c : Cursor) : Follows c.exit (exit.exec calls LineRule.full c) :=
  Follows.expect _ fun _ => Follows.expectLast _ fun _ => rfl

theorem ret_follows (c : Cursor) : Follows c.ret (ret.exec calls LineRule.full c) := by
  refine Follows.expect _ fun c => Follows.ifAt (fun hat => ?_) fun _ => ?_
  · rw [exec, if_pos hat]
    exact Follows.ok _ _
  · refine (expr_follows c).bind fun value c => ?_
    exact Follows.expectLast _ fun _ => rfl

theorem callStmt_follows (c : Cursor) :
    Follows c.callStmt (callStmt.exec calls LineRule.full c) := by
  refine (LineRule.call_follows c.fuelFor c).bind fun called c => ?_
  exact Follows.expectLast _ fun _ => rfl

theorem params_follows (c : Cursor) :
    Follows (ReadStmt.params c) (params.exec calls LineRule.full c) := by
  rw [ReadStmt.params, Cursor.atName_eq_any, params, exec]
  split
  · refine (Follows.param c).bind fun p c => ?_
    exact (LineRule.moreParams_follows c.fuelFor c).mapped fun _ _ => rfl
  · exact Follows.ok _ c

/-- Behind a `stop` with an `else` after it, the `else` is next. -/
theorem isAt_else_next {c : Cursor} (hstop : c.isAt (.keyword .stop) = true)
    (helse : c.secondIs (.keyword .else_) = true) : c.next.isAt (.keyword .else_) = true := by
  rcases c with ⟨_ | ⟨t, _ | ⟨t', rest⟩⟩, mode⟩
  · cases hstop
  · -- a `stop` that is the last token stands in for the one after it
    have hstop' : t.lexeme = .keyword .stop := by simpa [Cursor.isAt, Cursor.current?,
      Terminal.isMetBy] using hstop
    simp [Cursor.secondIs, Cursor.peek?, Terminal.isMetBy, hstop'] at helse
  · exact helse

theorem branchRest_follows {fuel : Nat}
    (hbranch : ∀ c, Follows (ReadStmt.branch fuel c) (run fuel .branch c))
    (hblock : ∀ c, Follows (ReadStmt.block fuel c) (run fuel .block c)) (c : Cursor) :
    Follows (Surface.branchRest fuel c) (branchRest.exec (run fuel) LineRule.full c) := by
  rw [Surface.branchRest, branchRest, exec, ← Cursor.isAt_eq_any, ← Cursor.secondIs_eq_any]
  by_cases hpass : (c.isAt (.keyword .stop) && c.secondIs (.keyword .else_)) = true
  · obtain ⟨hstop, hsecond⟩ := Bool.and_eq_true_iff.mp hpass
    have helse := isAt_else_next hstop hsecond
    rw [if_pos hpass, if_pos hpass]
    dsimp only
    rw [if_pos helse]
    refine Follows.after hstop (Follows.after helse (Follows.ifAt (fun _ => ?_) fun _ => ?_))
    · exact (hbranch c.next.next).mapped fun _ _ => rfl
    · exact (hblock c.next.next).mapped fun _ _ => rfl
  · rw [if_neg hpass, if_neg hpass]
    dsimp only
    refine Follows.ifAt (fun helse => Follows.after helse ?_) fun _ => ?_
    · refine Follows.ifAt (fun _ => ?_) fun _ => ?_
      · exact (hbranch c.next).mapped fun _ _ => rfl
      · exact (hblock c.next).mapped fun _ _ => rfl
    · exact Follows.expectLast _ fun _ => rfl

mutual

theorem stmt_follows : ∀ fuel c, Follows (ReadStmt.stmt fuel c) (run fuel .stmt c)
  | 0, _ => rfl
  | fuel + 1, c => by
    rw [ReadStmt.stmt]
    refine Follows.ifAt (fun _ => print_follows c) fun _ => ?_
    refine Follows.ifAt (fun _ => (declaration_follows c).mapped fun _ _ => rfl) fun _ => ?_
    refine Follows.ifAt (fun _ => (branch_follows fuel c).mapped fun _ _ => rfl) fun _ => ?_
    refine Follows.ifAt (fun _ => whileLoop_follows fuel c) fun _ => ?_
    refine Follows.ifAt (fun _ => forLoop_follows fuel c) fun _ => ?_
    refine Follows.ifAt (fun _ => function_follows fuel c) fun _ => ?_
    refine Follows.ifAt (fun _ => exit_follows c) fun _ => ?_
    refine Follows.ifAt (fun _ => ret_follows c) fun _ => ?_
    rw [wordless, exec, ← Cursor.atName_eq_any, ← Cursor.secondIs_eq_any,
      ← Cursor.secondIs_eq_any]
    split
    · exact (assignment_follows c).mapped fun _ _ => rfl
    · split
      · exact callStmt_follows c
      · exact forEach_follows fuel c

theorem stmtsUntil_follows : ∀ fuel terminals c,
    Follows (ReadStmt.stmtsUntil fuel terminals c) (run fuel (.stmtsUntil terminals) c)
  | 0, _, _ => rfl
  | fuel + 1, terminals, c => by
    have hmet : terminals.any c.isAt = terminals.any (fun t => c.lexeme?.any t.isMetBy) := by
      simp only [← Cursor.isAt_eq_any]
    rw [ReadStmt.stmtsUntil, run_succ, plan, exec, ← hmet, ← Cursor.atEnd_eq]
    split
    · exact Follows.ok _ c
    · split
      · exact Follows.missing _ c
      · refine (stmt_follows fuel c).bind fun s c => ?_
        exact (stmtsUntil_follows fuel terminals c).mapped fun _ _ => rfl

theorem block_follows : ∀ fuel c, Follows (ReadStmt.block fuel c) (run fuel .block c)
  | 0, _ => rfl
  | fuel + 1, c => by
    rw [ReadStmt.block]
    refine (stmtsUntil_follows fuel _ c).bind fun body c => ?_
    exact Follows.expectLast _ fun _ => rfl

theorem branch_follows : ∀ fuel c, Follows (ReadStmt.branch fuel c) (run fuel .branch c)
  | 0, _ => rfl
  | fuel + 1, c => by
    rw [Surface.branch_succ]
    refine Follows.expect _ fun c => (headerExpr_follows c).bind fun test c => ?_
    refine Follows.expect _ fun c => (stmtsUntil_follows fuel _ c).bind fun body c => ?_
    exact (branchRest_follows (branch_follows fuel) (block_follows fuel) c).mapped
      fun _ _ => rfl

theorem whileLoop_follows :
    ∀ fuel c, Follows (ReadStmt.whileLoop fuel c) (run fuel .whileLoop c)
  | 0, _ => rfl
  | fuel + 1, c => by
    rw [ReadStmt.whileLoop]
    refine Follows.expect _ fun c => (headerExpr_follows c).bind fun test c => ?_
    refine Follows.expect _ fun c => ?_
    exact (block_follows fuel c).mapped fun _ _ => rfl

theorem forLoop_follows : ∀ fuel c, Follows (ReadStmt.forLoop fuel c) (run fuel .forLoop c)
  | 0, _ => rfl
  | fuel + 1, c => by
    rw [ReadStmt.forLoop]
    refine Follows.expect _ fun c => (declaration_follows c).bind fun init c => ?_
    refine Follows.expect _ fun c => (headerExpr_follows c).bind fun test c => ?_
    refine Follows.expect _ fun c => (assignment_follows c).bind fun update c => ?_
    exact (block_follows fuel c).mapped fun _ _ => rfl

theorem forEach_follows : ∀ fuel c, Follows (ReadStmt.forEach fuel c) (run fuel .forEach c)
  | 0, _ => rfl
  | fuel + 1, c => by
    rw [ReadStmt.forEach]
    refine (LineRule.indexed_follows c.fuelFor (c.withHeader true)).inMode_bind
      fun collection after => ?_
    refine Follows.expect _ fun c => Follows.expect _ fun c => ?_
    refine (Follows.expectName c).bind fun name c => Follows.expect _ fun c => ?_
    exact (block_follows fuel c).mapped fun _ _ => rfl

theorem function_follows :
    ∀ fuel c, Follows (ReadStmt.function fuel c) (run fuel .function c)
  | 0, _ => rfl
  | fuel + 1, c => by
    rw [ReadStmt.function]
    refine Follows.expect _ fun c => (Follows.expectName c).bind fun name c => ?_
    refine (params_follows c).bind fun parameters c => Follows.expect _ fun c => ?_
    exact (block_follows fuel c).mapped fun _ _ => rfl

end

/-- Follows a rule to its end. -/
def full (r : StmtRule) : Move := fun c => run c.fuelFor r c

end StmtRule

/-! ## Programs -/

/-- The rule for a program. -/
inductive ProgramRule where
  | stmts

namespace ProgramRule

open Plan

/-- The plan of the rule. -/
def plan : ProgramRule → Plan ProgramRule StmtRule
  | .stmts =>
    look fun x _ _ => if x == some .eof then done else seq (lower .stmt) (rule .stmts)

/-- Follows the rule, with a bound on the depth of calls. -/
def run : Nat → ProgramRule → Move := Plan.run plan StmtRule.full

theorem run_succ (fuel : Nat) (r : ProgramRule) (c : Cursor) :
    run (fuel + 1) r c = r.plan.exec (run fuel) StmtRule.full c := rfl

theorem stmts_follows : ∀ fuel c, Follows (ReadStmt.stmts fuel c) (run fuel .stmts c)
  | 0, _ => rfl
  | fuel + 1, c => by
    rw [ReadStmt.stmts, run_succ, plan, exec, ← Cursor.atEnd_eq]
    split
    · exact Follows.ok _ c
    · refine (StmtRule.stmt_follows c.fuelFor c).bind fun s c => ?_
      exact (stmts_follows fuel c).mapped fun _ _ => rfl

/-- Follows the rule to its end. -/
def full (r : ProgramRule) : Move := fun c => run c.fuelFor r c

end ProgramRule

end Squishc.Surface
