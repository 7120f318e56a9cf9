import Squishc.Proofs.ReadPlan
import Squishc.Proofs.ReadSound

/-!
# Reading stays within the tokens

A plan fits a rank if each of its calls has a rank of at most this one, where a token
taken before a call makes up for any rank.  Rules whose plans fit the rank below their
own nest only so many calls before a token is taken.  So the fuel that grows with the
number of tokens is never used up, and what a rule does is one of two things: it passes
tokens in front of the end mark, or it halts at one of the tokens.

Main results:

- Theorem `Plan.exec_bounded`: a plan that fits stays within the tokens if its calls do.
- Theorem `Plan.run_bounded`: so does every rule of a layer whose plans fit.
- Theorem `read_within`: every reader ends, in front of the end mark and in the mode it
  started with, or it faults at a token.
-/

namespace Squishc.Surface

/-- No end mark is among the tokens. -/
def NoEnd (ts : List Token) : Prop := ∀ t ∈ ts, t.lexeme ≠ .eof

/-- A cursor stands at the other one or behind it, with no end mark in between. -/
def Cursor.Reaches (c d : Cursor) : Prop := ∃ ts, c.rest = ts ++ d.rest ∧ NoEnd ts

/-- A halt arises from the tokens at which it stands. -/
def Halt.Arises (c : Cursor) : Halt → Prop
  | missing _ d => c.Reaches d
  | tooLong d => c.Reaches d ∧ ∃ digits, d.lexeme? = some (.int digits) ∧ digitLimit < digits.length
  | outOfFuel => False

/-- The outcome of a move stays within the tokens, and a token is passed if the move
is one that advances. -/
def Bounded (advances : Prop) (c : Cursor) : Except Halt Cursor → Prop
  | .ok after =>
    ∃ ts, c = ⟨ts ++ after.rest, after.inHeader⟩ ∧ NoEnd ts ∧ (advances → ts ≠ [])
  | .error halt => halt.Arises c

theorem NoEnd.append {ts us : List Token} (hts : NoEnd ts) (hus : NoEnd us) : NoEnd (ts ++ us) := by
  intro t ht
  rcases List.mem_append.mp ht with ht | ht
  · exact hts t ht
  · exact hus t ht

theorem Halt.Arises.append {ts rest : List Token} {mode mode' : Bool} {halt : Halt}
    (hts : NoEnd ts) (h : halt.Arises ⟨rest, mode⟩) : halt.Arises ⟨ts ++ rest, mode'⟩ := by
  have hreach : ∀ d, Cursor.Reaches ⟨rest, mode⟩ d → Cursor.Reaches ⟨ts ++ rest, mode'⟩ d := by
    rintro d ⟨us, hus, hend⟩
    exact ⟨ts ++ us, by rw [List.append_assoc]; exact congrArg (ts ++ ·) hus, hts.append hend⟩
  cases halt with
  | missing what d => exact hreach d h
  | tooLong d => exact ⟨hreach d h.1, h.2⟩
  | outOfFuel => exact h

namespace Bounded

variable {c : Cursor} {advances : Prop}

/-- What the next token alone decides. -/
theorem step {l : Lexeme} (hl : c.lexeme? = some l) (hend : l ≠ .eof) :
    Bounded advances c (.ok c.next) := by
  obtain ⟨t, rest, mode, rfl, rfl⟩ := Cursor.exists_of_lexeme? hl
  exact ⟨[t], rfl, by simpa [NoEnd] using hend, fun _ => List.cons_ne_nil t []⟩

theorem missing (what : Expected) (c : Cursor) :
    Bounded advances c (.error (.missing what c)) :=
  ⟨[], rfl, by simp [NoEnd]⟩

theorem mono {advances' : Prop} {s : Except Halt Cursor} (h : Bounded advances c s)
    (himp : advances' → advances) : Bounded advances' c s := by
  cases s with
  | error halt => exact h
  | ok after =>
    obtain ⟨ts, hc, hend, hadvances⟩ := h
    exact ⟨ts, hc, hend, fun h => hadvances (himp h)⟩

/-- Tokens that were passed before. -/
theorem prepend {middle : Cursor} {ts : List Token} {first : Prop} {s : Except Halt Cursor}
    (h : Bounded advances middle s) (hend : NoEnd ts) (hfirst : first → ts ≠ []) :
    Bounded (first ∨ advances) ⟨ts ++ middle.rest, middle.inHeader⟩ s := by
  cases s with
  | error halt => exact Halt.Arises.append hend h
  | ok after =>
    obtain ⟨us, rfl, hend', hadvances⟩ := h
    refine ⟨ts ++ us, by rw [List.append_assoc], hend.append hend', fun hany hnil => ?_⟩
    obtain ⟨rfl, rfl⟩ := List.append_eq_nil_iff.mp hnil
    rcases hany with hany | hany
    · exact hfirst hany rfl
    · exact hadvances hany rfl

end Bounded

/-- No terminal is met by the end mark. -/
theorem Terminal.ne_eof_of_isMetBy {t : Terminal} {l : Lexeme} (h : t.isMetBy l = true) :
    l ≠ .eof := by
  rintro rfl
  cases t with
  | keyword word => cases h
  | symbol mark => cases h
  | other text =>
    obtain ⟨hlabel, htext⟩ := Bool.and_eq_true_iff.mp h
    have : Lexeme.eof.label = Lexeme.eof.text :=
      (beq_iff_eq.mp hlabel).trans (beq_iff_eq.mp htext).symm
    exact absurd this (by decide)

namespace Plan

variable {ρ σ : Type} {rank : ρ → Nat} {advances : ρ → Bool} {advances' : σ → Bool}

/-- A plan takes a token, if the rules do of which this is said. -/
def Advances (advances : ρ → Bool) (advances' : σ → Bool) : Plan ρ σ → Prop
  | done => False
  | take _ | takeName | takeInt | skip | fail _ => True
  | rule r => advances r
  | lower r => advances' r
  | inMode _ p => p.Advances advances advances'
  | seq p q => p.Advances advances advances' ∨ q.Advances advances advances'
  | look choose => ∀ x y mode, (choose x y mode).Advances advances advances'

/-- The calls of a plan have at most the given rank, or come behind a token. -/
def Fits (rank : ρ → Nat) (advances : ρ → Bool) (advances' : σ → Bool) :
    Nat → Plan ρ σ → Prop
  | k, rule r => rank r ≤ k
  | k, inMode _ p => p.Fits rank advances advances' k
  | k, seq p q =>
    p.Fits rank advances advances' k ∧ (q.Fits rank advances advances' k ∨
      p.Advances advances advances' ∧ q.Fits rank advances advances' (k + 32))
  | k, look choose => ∀ x y mode, (choose x y mode).Fits rank advances advances' k
  | _, _ => True

section Fitting

variable {p q : Plan ρ σ} {t : Terminal} {k : Nat}

theorem Advances.ifAt (hp : p.Advances advances advances') (hq : q.Advances advances advances') :
    (ifAt t p q).Advances advances advances' := by
  intro x _ _
  dsimp only
  split
  · exact hp
  · exact hq

theorem Advances.after : (after t p).Advances advances advances' := .inl trivial

theorem Fits.ifAt (hp : p.Fits rank advances advances' k) (hq : q.Fits rank advances advances' k) :
    (ifAt t p q).Fits rank advances advances' k := by
  intro x _ _
  dsimp only
  split
  · exact hp
  · exact hq

theorem Fits.after (hp : p.Fits rank advances advances' (k + 32)) :
    (after t p).Fits rank advances advances' k :=
  ⟨trivial, .inr ⟨trivial, hp⟩⟩

end Fitting

theorem exec_bounded {calls : ρ → Move} {below : σ → Move} {fuel : Nat}
    (hcalls : ∀ r c, 32 * c.rest.length + rank r ≤ fuel → Bounded (advances r) c (calls r c))
    (hbelow : ∀ r c, Bounded (advances' r) c (below r c)) (p : Plan ρ σ) :
    ∀ k c, p.Fits rank advances advances' k → 32 * c.rest.length + k ≤ fuel →
      Bounded (p.Advances advances advances') c (p.exec calls below c) := by
  induction p with
  | done => exact fun k c _ _ => ⟨[], rfl, by simp [NoEnd], False.elim⟩
  | take t =>
    intro k c _ _
    rw [exec]
    split
    · rename_i hat
      obtain ⟨t', rest, mode, rfl, hmet⟩ := Cursor.exists_of_isAt hat
      exact Bounded.step rfl (Terminal.ne_eof_of_isMetBy hmet)
    · exact Bounded.missing _ c
  | takeName =>
    intro k c _ _
    rw [exec, Cursor.atName_eq_any]
    cases hl : c.lexeme? with
    | none => exact Bounded.missing _ c
    | some l =>
      cases l with
      | name text => exact Bounded.step hl (by simp)
      | _ => exact Bounded.missing _ c
  | takeInt =>
    intro k c _ _
    rw [exec]
    split
    · rename_i digits hl
      split
      · exact Bounded.step hl (by simp)
      · rename_i hlong
        exact ⟨⟨[], rfl, by simp [NoEnd]⟩, digits, hl, Nat.lt_of_not_le hlong⟩
    · exact Bounded.missing _ c
  | skip =>
    intro k c _ _
    rw [exec]
    split
    · exact Bounded.missing _ c
    · exact Bounded.missing _ c
    · rename_i hend hl
      exact Bounded.step hl hend
  | fail what => exact fun k c _ _ => Bounded.missing what c
  | rule r => exact fun k c hfits hfuel => hcalls r c (by simp only [Fits] at hfits; omega)
  | lower r => exact fun k c _ _ => hbelow r c
  | inMode mode p ih =>
    intro k c hfits hfuel
    rw [exec]
    have h := ih k (c.withHeader mode) hfits hfuel
    cases hp : p.exec calls below (c.withHeader mode) with
    | error halt =>
      rw [hp] at h
      exact Halt.Arises.append (by simp [NoEnd] : NoEnd []) h
    | ok after =>
      rw [hp] at h
      obtain ⟨ts, hc, hend, hadvances⟩ := h
      exact ⟨ts, congrArg (Cursor.withHeader · c.inHeader) hc, hend, hadvances⟩
  | seq p q ihp ihq =>
    intro k c hfits hfuel
    have h := ihp k c hfits.1 hfuel
    rw [exec]
    cases hp : p.exec calls below c with
    | error halt =>
      rw [hp] at h
      exact h
    | ok middle =>
      rw [hp] at h
      obtain ⟨ts, rfl, hend, hadvances⟩ := h
      simp only [List.length_append] at hfuel
      have hq : Bounded (q.Advances advances advances') middle (q.exec calls below middle) := by
        rcases hfits.2 with hsame | ⟨htaken, hmore⟩
        · exact ihq k middle hsame (by omega)
        · -- the token that was taken pays for the larger rank
          have := List.length_pos_iff.mpr (hadvances htaken)
          exact ihq (k + 32) middle hmore (by omega)
      exact hq.prepend hend hadvances
  | look choose ih =>
    intro k c hfits hfuel
    exact (ih _ _ _ k c (hfits _ _ _) hfuel).mono fun h => h _ _ _

/-- A rule whose plan fits the rank below its own stays within the tokens. -/
theorem run_bounded {plan : ρ → Plan ρ σ} {below : σ → Move}
    (hfits : ∀ r, ∃ k, rank r = k + 1 ∧ (plan r).Fits rank advances advances' k)
    (hadvances : ∀ r, advances r → (plan r).Advances advances advances')
    (hbelow : ∀ r c, Bounded (advances' r) c (below r c)) :
    ∀ fuel r c, 32 * c.rest.length + rank r ≤ fuel →
      Bounded (advances r) c (run plan below fuel r c) := by
  intro fuel
  induction fuel with
  | zero =>
    intro r c hfuel
    obtain ⟨k, hk, -⟩ := hfits r
    omega
  | succ fuel ih =>
    intro r c hfuel
    obtain ⟨k, hk, hplan⟩ := hfits r
    exact (exec_bounded ih hbelow (plan r) k c hplan (by omega)).mono (hadvances r)

end Plan

/-! ## The ranks of the rules -/

/-- How far a level is from the tightest one. -/
def Level.looseness : Level → Nat
  | disjunction => 4
  | conjunction => 3
  | comparison => 2
  | sum => 1
  | product => 0

namespace LineRule

open Plan

/-- How many calls a rule nests before it takes a token. -/
def rank : LineRule → Nat
  | .call | .brackets | .levelRest _ | .indexes | .arguments | .elements _ | .moreParams => 1
  | .primary => 2
  | .indexed => 3
  | .power => 4
  | .unary => 5
  | .operand l => 2 * l.looseness + 6
  | .level l => 2 * l.looseness + 7
  | .expr => 16
  | .nested => 17

/-- Whether a rule always takes a token. -/
def advances : LineRule → Bool
  | .levelRest _ | .indexes | .arguments | .elements _ | .moreParams => false
  | _ => true

theorem named_advances : named.Advances advances nofun := by
  intro _ y header
  dsimp only
  split
  · rfl
  · trivial

theorem plan_advances (r : LineRule) (h : r.advances) : r.plan.Advances advances nofun := by
  cases r with
  | expr => exact .inl rfl
  | nested => rfl
  | level l => exact .inl rfl
  | operand l => cases l <;> rfl
  | unary =>
    intro x _ _
    dsimp only
    split
    · exact .inl trivial
    · rfl
  | power => exact .inl rfl
  | indexed => exact .inl rfl
  | primary =>
    intro x _ _
    dsimp only
    split
    case h_6 => exact named_advances
    case h_7 => exact .inl trivial
    all_goals trivial
  | call => exact .inl trivial
  | brackets => exact .inl trivial
  | _ => cases h

theorem rank_le (r : LineRule) : r.rank ≤ 32 := by
  cases r with
  | operand l => cases l <;> decide
  | level l => cases l <;> decide
  | _ => simp [rank]

/-- Behind a token any rule may be called. -/
theorem fits_behind (r : LineRule) (k : Nat) :
    (rule r : Plan LineRule Empty).Fits rank advances nofun (k + 32) :=
  Nat.le_trans r.rank_le (Nat.le_add_left 32 k)

theorem plan_fits (r : LineRule) :
    ∃ k, r.rank = k + 1 ∧ r.plan.Fits rank advances nofun k := by
  cases r with
  | expr =>
    refine ⟨15, rfl, Nat.le_refl 15, .inl (Fits.ifAt (Fits.after ?_) trivial)⟩
    exact ⟨fits_behind _ _, .inl (Fits.after (fits_behind _ _))⟩
  | nested => exact ⟨16, rfl, Nat.le_refl 16⟩
  | level l => exact ⟨2 * l.looseness + 6, rfl, Nat.le_refl _, .inr ⟨rfl, fits_behind _ _⟩⟩
  | operand l =>
    refine ⟨2 * l.looseness + 5, rfl, ?_⟩
    cases l <;> exact Nat.le_refl _
  | levelRest l =>
    refine ⟨0, rfl, fun x _ _ => ?_⟩
    dsimp only
    split
    · refine ⟨trivial, .inr ⟨trivial, fits_behind _ _, .inl ?_⟩⟩
      split
      · exact fits_behind _ _
      · trivial
    · trivial
  | unary =>
    refine ⟨4, rfl, fun x _ _ => ?_⟩
    dsimp only
    split
    · exact ⟨trivial, .inr ⟨trivial, fits_behind _ _⟩⟩
    · exact Nat.le_refl 4
  | power =>
    exact ⟨3, rfl, Nat.le_refl 3, .inl (Fits.ifAt (Fits.after (fits_behind _ _)) trivial)⟩
  | indexed => exact ⟨2, rfl, Nat.le_refl 2, .inr ⟨rfl, fits_behind _ _⟩⟩
  | indexes =>
    refine ⟨0, rfl, Fits.ifAt (Fits.after ?_) trivial⟩
    exact ⟨fits_behind _ _, .inl (Fits.after (fits_behind _ _))⟩
  | primary =>
    refine ⟨1, rfl, fun x _ _ => ?_⟩
    dsimp only
    split
    case h_6 =>
      intro _ y header
      dsimp only
      split
      · exact Nat.le_refl 1
      · trivial
    case h_7 => exact Fits.after ⟨fits_behind _ _, .inl trivial⟩
    case h_8 => exact Nat.le_refl 1
    all_goals trivial
  | call =>
    refine ⟨0, rfl, trivial, .inl (Fits.after fun x _ _ => ?_)⟩
    dsimp only
    split
    · exact ⟨fits_behind _ _, .inl (fits_behind _ _)⟩
    · trivial
  | arguments =>
    refine ⟨0, rfl, Fits.ifAt (Fits.after ?_) trivial⟩
    exact ⟨fits_behind _ _, .inl (fits_behind _ _)⟩
  | brackets =>
    refine ⟨0, rfl, Fits.after (Fits.ifAt trivial ⟨fits_behind _ _, .inl ?_⟩)⟩
    exact Fits.ifAt ⟨fits_behind _ _, .inl trivial⟩ trivial
  | elements single =>
    refine ⟨0, rfl, Fits.ifAt (Fits.after fun x _ _ => ?_) trivial⟩
    dsimp only
    split
    · trivial
    · exact ⟨fits_behind _ _, .inl (fits_behind _ _)⟩
  | moreParams =>
    exact ⟨0, rfl, Fits.ifAt (Fits.after ⟨trivial, .inl (fits_behind _ _)⟩) trivial⟩

theorem full_bounded (r : LineRule) (c : Cursor) : Bounded r.advances c (r.full c) := by
  refine run_bounded plan_fits plan_advances nofun c.fuelFor r c ?_
  have := r.rank_le
  simp only [Cursor.fuelFor]
  omega

end LineRule

namespace StmtRule

open Plan

/-- How many calls a rule nests before it takes a token. -/
def rank : StmtRule → Nat
  | .stmt => 2
  | .stmtsUntil _ => 3
  | .block => 4
  | _ => 1

/-- Whether a rule always takes a token. -/
def advances : StmtRule → Bool
  | .stmtsUntil _ => false
  | _ => true

theorem rank_le (r : StmtRule) : r.rank ≤ 32 := by
  cases r <;> simp [rank]

/-- Behind a token any rule may be called. -/
theorem fits_behind (r : StmtRule) (k : Nat) :
    (rule r : Plan StmtRule LineRule).Fits rank advances LineRule.advances (k + 32) :=
  Nat.le_trans r.rank_le (Nat.le_add_left 32 k)

theorem wordless_advances : wordless.Advances advances LineRule.advances := by
  intro x y _
  dsimp only
  split
  · exact .inl trivial
  · split
    · exact .inl rfl
    · rfl

theorem plan_advances (r : StmtRule) (h : r.advances) :
    r.plan.Advances advances LineRule.advances := by
  cases r with
  | stmt =>
    exact Advances.ifAt Advances.after <| Advances.ifAt Advances.after <|
      Advances.ifAt rfl <| Advances.ifAt rfl <| Advances.ifAt rfl <| Advances.ifAt rfl <|
      Advances.ifAt Advances.after <| Advances.ifAt Advances.after wordless_advances
  | stmtsUntil terminals => cases h
  | block => exact .inr trivial
  | branch => exact Advances.after
  | whileLoop => exact Advances.after
  | forLoop => exact Advances.after
  | forEach => exact .inl rfl
  | function => exact Advances.after

theorem valueRest_fits (k : Nat) : valueRest.Fits rank advances LineRule.advances k :=
  ⟨trivial, .inl trivial⟩

theorem assignment_fits (k : Nat) : assignment.Fits rank advances LineRule.advances k :=
  ⟨trivial, .inl (Fits.after (valueRest_fits _))⟩

theorem body_fits (k : Nat) : body.Fits rank advances LineRule.advances k :=
  Fits.after (fits_behind _ _)

theorem alternative_fits (k : Nat) : alternative.Fits rank advances LineRule.advances k :=
  Fits.after (Fits.ifAt (fits_behind _ _) (fits_behind _ _))

theorem plan_fits (r : StmtRule) :
    ∃ k, r.rank = k + 1 ∧ r.plan.Fits rank advances LineRule.advances k := by
  cases r with
  | stmt =>
    refine ⟨1, rfl, ?_⟩
    refine Fits.ifAt (Fits.after (valueRest_fits _)) <|
      Fits.ifAt (Fits.after (assignment_fits _)) <|
      Fits.ifAt (Nat.le_refl 1) <| Fits.ifAt (Nat.le_refl 1) <| Fits.ifAt (Nat.le_refl 1) <|
      Fits.ifAt (Nat.le_refl 1) <| Fits.ifAt (Fits.after trivial) <|
      Fits.ifAt (Fits.after (Fits.ifAt trivial (valueRest_fits _))) fun x y _ => ?_
    dsimp only
    split
    · exact assignment_fits _
    · split
      · exact ⟨trivial, .inl trivial⟩
      · exact Nat.le_refl 1
  | stmtsUntil terminals =>
    refine ⟨2, rfl, fun x _ _ => ?_⟩
    dsimp only
    split
    · trivial
    · split
      · trivial
      · exact ⟨Nat.le_refl 2, .inr ⟨rfl, fits_behind _ _⟩⟩
  | block => exact ⟨3, rfl, Nat.le_refl 3, .inl trivial⟩
  | branch =>
    refine ⟨0, rfl, Fits.after ⟨trivial, .inl (Fits.after ⟨fits_behind _ _, .inl ?_⟩)⟩⟩
    intro x y _
    dsimp only
    split
    · exact Fits.after (alternative_fits _)
    · exact Fits.ifAt (alternative_fits _) trivial
  | whileLoop => exact ⟨0, rfl, Fits.after ⟨trivial, .inl (body_fits _)⟩⟩
  | forLoop =>
    refine ⟨0, rfl, Fits.after ⟨Fits.after (assignment_fits _), .inl (Fits.after ?_)⟩⟩
    exact ⟨trivial, .inl (Fits.after ⟨assignment_fits _, .inl (fits_behind _ _)⟩)⟩
  | forEach =>
    refine ⟨0, rfl, trivial, .inl (Fits.after (Fits.after ?_))⟩
    exact ⟨trivial, .inl (body_fits _)⟩
  | function =>
    refine ⟨0, rfl, Fits.after ⟨trivial, .inl ⟨fun x _ _ => ?_, .inl (body_fits _)⟩⟩⟩
    dsimp only
    split
    · exact ⟨trivial, .inl trivial⟩
    · trivial

theorem full_bounded (r : StmtRule) (c : Cursor) : Bounded r.advances c (r.full c) := by
  refine run_bounded plan_fits plan_advances LineRule.full_bounded c.fuelFor r c ?_
  have := r.rank_le
  simp only [Cursor.fuelFor]
  omega

/-- Part of a statement stays within the tokens. -/
theorem exec_full_bounded (p : Plan StmtRule LineRule) (c : Cursor)
    (hfits : p.Fits rank advances LineRule.advances 0)
    (hadvances : p.Advances advances LineRule.advances) :
    Bounded True c (p.exec full LineRule.full c) :=
  (exec_bounded (fun r c _ => r.full_bounded c) LineRule.full_bounded p 0 c hfits
    (Nat.le_refl _)).mono fun _ => hadvances

end StmtRule

namespace ProgramRule

open Plan

/-- How many calls the rule nests before it takes a token. -/
def rank : ProgramRule → Nat
  | .stmts => 1

/-- Whether the rule always takes a token. -/
def advances : ProgramRule → Bool
  | .stmts => false

theorem plan_fits (r : ProgramRule) :
    ∃ k, r.rank = k + 1 ∧ r.plan.Fits rank advances StmtRule.advances k := by
  refine ⟨0, rfl, fun x _ _ => ?_⟩
  dsimp only
  split
  · trivial
  · exact ⟨trivial, .inr ⟨rfl, Nat.le_add_left 1 31⟩⟩

theorem full_bounded (r : ProgramRule) (c : Cursor) : Bounded r.advances c (r.full c) := by
  refine run_bounded plan_fits nofun StmtRule.full_bounded c.fuelFor r c ?_
  simp only [Cursor.fuelFor, rank]
  omega

end ProgramRule

/-! ## Readers -/

namespace Reader

/-- The way of a reader through the tokens. -/
def move : Reader → Move
  | program => ProgramRule.full .stmts
  | stmtsUntil terminals => StmtRule.full (.stmtsUntil terminals)
  | block => StmtRule.full .block
  | stmt => StmtRule.full .stmt
  | print => StmtRule.print.exec StmtRule.full LineRule.full
  | declaration => StmtRule.declaration.exec StmtRule.full LineRule.full
  | assignment => StmtRule.assignment.exec StmtRule.full LineRule.full
  | branch => StmtRule.full .branch
  | whileLoop => StmtRule.full .whileLoop
  | forLoop => StmtRule.full .forLoop
  | forEach => StmtRule.full .forEach
  | function => StmtRule.full .function
  | param => Plan.takeName.exec StmtRule.full LineRule.full
  | ret => StmtRule.ret.exec StmtRule.full LineRule.full
  | call => LineRule.full .call
  | headerExpr => StmtRule.headerExpr.exec StmtRule.full LineRule.full
  | nested => LineRule.full .nested
  | expr => LineRule.full .expr
  | level l => LineRule.full (.level l)
  | unary => LineRule.full .unary
  | power => LineRule.full .power
  | indexed => LineRule.full .indexed
  | primary => LineRule.full .primary
  | brackets => LineRule.full .brackets

theorem follows (reader : Reader) (c : Cursor) : Follows (reader.read c) (reader.move c) := by
  cases reader with
  | program => exact (ProgramRule.stmts_follows _ c).mapped fun _ _ => rfl
  | stmtsUntil terminals => exact StmtRule.stmtsUntil_follows _ terminals c
  | block => exact StmtRule.block_follows _ c
  | stmt => exact StmtRule.stmt_follows _ c
  | print => exact StmtRule.print_follows c
  | declaration => exact StmtRule.declaration_follows c
  | assignment => exact StmtRule.assignment_follows c
  | branch => exact (StmtRule.branch_follows _ c).mapped fun _ _ => rfl
  | whileLoop => exact StmtRule.whileLoop_follows _ c
  | forLoop => exact StmtRule.forLoop_follows _ c
  | forEach => exact StmtRule.forEach_follows _ c
  | function => exact StmtRule.function_follows _ c
  | param =>
    exact (Follows.param c : Follows _ (Plan.takeName.exec StmtRule.full LineRule.full c))
  | ret => exact StmtRule.ret_follows c
  | call => exact LineRule.call_follows _ c
  | headerExpr => exact StmtRule.headerExpr_follows c
  | nested => exact LineRule.nested_follows _ c
  | expr => exact LineRule.expr_follows _ c
  | level l => exact LineRule.level_follows _ l c
  | unary => exact LineRule.unary_follows _ c
  | power => exact LineRule.power_follows _ c
  | indexed => exact LineRule.indexed_follows _ c
  | primary => exact LineRule.primary_follows _ c
  | brackets => exact LineRule.brackets_follows _ c

/-- Whether a reader always takes a token.  Only lists of statements may be empty. -/
def advances : Reader → Bool
  | program | stmtsUntil _ => false
  | _ => true

theorem move_bounded (reader : Reader) (c : Cursor) :
    Bounded reader.advances c (reader.move c) := by
  cases reader with
  | program => exact ProgramRule.full_bounded .stmts c
  | stmtsUntil terminals => exact StmtRule.full_bounded (.stmtsUntil terminals) c
  | block => exact StmtRule.full_bounded .block c
  | stmt => exact StmtRule.full_bounded .stmt c
  | print =>
    exact (StmtRule.exec_full_bounded StmtRule.print c (Plan.Fits.after (StmtRule.valueRest_fits _))
      Plan.Advances.after).mono fun _ => trivial
  | declaration =>
    exact (StmtRule.exec_full_bounded StmtRule.declaration c
      (Plan.Fits.after (StmtRule.assignment_fits _)) Plan.Advances.after).mono fun _ => trivial
  | assignment =>
    exact (StmtRule.exec_full_bounded StmtRule.assignment c (StmtRule.assignment_fits 0)
      (.inl trivial)).mono fun _ => trivial
  | branch => exact StmtRule.full_bounded .branch c
  | whileLoop => exact StmtRule.full_bounded .whileLoop c
  | forLoop => exact StmtRule.full_bounded .forLoop c
  | forEach => exact StmtRule.full_bounded .forEach c
  | function => exact StmtRule.full_bounded .function c
  | param =>
    exact (StmtRule.exec_full_bounded Plan.takeName c trivial trivial).mono fun _ => trivial
  | ret =>
    exact (StmtRule.exec_full_bounded StmtRule.ret c (Plan.Fits.after (Plan.Fits.ifAt trivial
      (StmtRule.valueRest_fits _))) Plan.Advances.after).mono fun _ => trivial
  | call => exact LineRule.full_bounded .call c
  | headerExpr =>
    exact (StmtRule.exec_full_bounded StmtRule.headerExpr c trivial rfl).mono fun _ => trivial
  | nested => exact LineRule.full_bounded .nested c
  | expr => exact LineRule.full_bounded .expr c
  | level l => exact LineRule.full_bounded (.level l) c
  | unary => exact LineRule.full_bounded .unary c
  | power => exact LineRule.full_bounded .power c
  | indexed => exact LineRule.full_bounded .indexed c
  | primary => exact LineRule.full_bounded .primary c
  | brackets => exact LineRule.full_bounded .brackets c

end Reader

/-- The tokens end with an end mark, and there is no other one. -/
def EndsOnce (tokens : List Token) : Prop :=
  ∃ body mark, tokens = body ++ [mark] ∧ mark.lexeme = .eof ∧ NoEnd body

/-- Where no end mark has been passed, a token is next. -/
theorem EndsOnce.exists_next {tokens ts rest : List Token} (hends : EndsOnce tokens) {start : Nat}
    (hstart : start < tokens.length) (hdrop : tokens.drop start = ts ++ rest) (hts : NoEnd ts) :
    ∃ t rest', rest = t :: rest' ∧ tokens[start + ts.length]? = some t := by
  cases rest with
  | cons t rest' =>
    refine ⟨t, rest', rfl, ?_⟩
    rw [← List.getElem?_drop, hdrop]
    simp
  | nil =>
    -- otherwise the end mark would be among the tokens that were passed
    obtain ⟨body, mark, rfl, hmark, -⟩ := hends
    have hle : start ≤ body.length := by
      simp only [List.length_append, List.length_singleton] at hstart
      omega
    rw [List.drop_append_of_le_length hle, List.append_nil] at hdrop
    exact absurd hmark (hts mark (hdrop ▸ List.mem_append_right _ (List.mem_singleton_self mark)))

/-- From any place up to the end mark and in either mode, a reader ends in front of the
end mark and in the same mode, or it faults at a token.  Only a list of statements may
take no token. -/
theorem read_within (reader : Reader) {tokens : List Token} (hends : EndsOnce tokens)
    {start : Nat} (hstart : start < tokens.length) (mode : Bool) :
    (∃ result stop, reader.read ⟨tokens.drop start, mode⟩ =
        .ok (result, ⟨tokens.drop stop, mode⟩) ∧
      start ≤ stop ∧ stop < tokens.length ∧ (reader.advances → start < stop)) ∨
    (∃ what place t, reader.read ⟨tokens.drop start, mode⟩ =
        .error (.expected what t.lexeme t.pos) ∧
      start ≤ place ∧ tokens[place]? = some t) ∨
    (∃ place t digits, reader.read ⟨tokens.drop start, mode⟩ = .error .digitLimit ∧
      start ≤ place ∧ tokens[place]? = some t ∧
      t.lexeme = .int digits ∧ digitLimit < digits.length) := by
  have hfollows := reader.follows ⟨tokens.drop start, mode⟩
  have hbounded := reader.move_bounded ⟨tokens.drop start, mode⟩
  cases hmove : reader.move ⟨tokens.drop start, mode⟩ with
  | ok after =>
    rw [hmove] at hfollows hbounded
    obtain ⟨result, hread⟩ := hfollows.exists_ok
    obtain ⟨ts, hc, hts, hadvances⟩ := hbounded
    obtain ⟨hdrop, hmode⟩ := Cursor.mk.inj hc
    obtain ⟨t, rest, hrest, hplace⟩ := hends.exists_next hstart hdrop hts
    have hafter : after = ⟨tokens.drop (start + ts.length), mode⟩ := by
      rw [← List.drop_drop, hdrop, List.drop_left, hmode]
    refine .inl ⟨result, start + ts.length, hafter ▸ hread, Nat.le_add_right _ _,
      (List.getElem?_eq_some_iff.mp hplace).1, fun h => ?_⟩
    have := List.length_pos_iff.mpr (hadvances h)
    omega
  | error halt =>
    rw [hmove] at hfollows hbounded
    have hread := hfollows.eq_error
    cases halt with
    | missing what d =>
      obtain ⟨ts, hdrop, hts⟩ := hbounded
      obtain ⟨t, rest, hrest, hplace⟩ := hends.exists_next hstart hdrop hts
      refine .inr (.inl ⟨what, start + ts.length, t, ?_, Nat.le_add_right _ _, hplace⟩)
      rw [hread, Halt.fault, Cursor.missing, Cursor.current?, hrest]
      rfl
    | tooLong d =>
      obtain ⟨⟨ts, hdrop, hts⟩, digits, hdigits, hlong⟩ := hbounded
      obtain ⟨t, rest, hrest, hplace⟩ := hends.exists_next hstart hdrop hts
      refine .inr (.inr ⟨start + ts.length, t, digits, hread, Nat.le_add_right _ _, hplace, ?_,
        hlong⟩)
      rw [Cursor.lexeme?, Cursor.current?, hrest] at hdigits
      exact Option.some.inj hdigits
    | outOfFuel => exact hbounded.elim

/-- `(1` -/
def unclosedGroup : List Token :=
  [⟨.symbol .openParen, ⟨1, 1⟩⟩, ⟨.int "1", ⟨1, 2⟩⟩, ⟨.eof, ⟨1, 3⟩⟩]

theorem unclosedGroup_within : EndsOnce unclosedGroup ∧ 0 < unclosedGroup.length ∧
    ∃ (place : Nat) (t : Token), unclosedGroup[place]? = some t ∧
      Reader.headerExpr.read ⟨unclosedGroup.drop 0, false⟩ =
        .error (.expected (.terminal (.symbol .closeParen)) t.lexeme t.pos) := by
  have hends : EndsOnce unclosedGroup :=
    ⟨[⟨.symbol .openParen, ⟨1, 1⟩⟩, ⟨.int "1", ⟨1, 2⟩⟩], ⟨.eof, ⟨1, 3⟩⟩, rfl, rfl, by simp [NoEnd]⟩
  have hread : Reader.headerExpr.read ⟨unclosedGroup.drop 0, false⟩ =
      .error (.expected (.terminal (.symbol .closeParen)) .eof ⟨1, 3⟩) := rfl
  refine ⟨hends, by decide, ?_⟩
  rcases read_within .headerExpr hends (by decide : 0 < unclosedGroup.length) false with
    ⟨result, stop, hok, -⟩ | ⟨what, place, t, herror, -, hplace⟩ | ⟨place, t, digits, herror, -⟩
  · rw [hread] at hok
    cases hok
  · rw [hread] at herror
    obtain ⟨rfl, -⟩ := ReadFault.expected.inj (Except.error.inj herror)
    exact ⟨place, t, hplace, hread.trans herror⟩
  · rw [hread] at herror
    cases herror

end Squishc.Surface
