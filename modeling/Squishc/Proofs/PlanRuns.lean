import Squishc.Proofs.ReadBounds

/-!
# What the run of a plan depends on

A run that ends keeps its outcome when it gets more fuel.  And a run depends on the
lexemes alone: tokens with the same lexemes at other places of the text are passed in
the same way, and a halt is at the same one of them.

Main results:

- Theorem `Plan.run_settles`: more fuel changes nothing but the lack of it.
- Theorem `Plan.run_matches`: runs over the same lexemes match.
- Theorems `LineRule.full_eq_of_run`, `StmtRule.full_eq_of_run`,
  `ProgramRule.full_eq_of_run`: what some fuel reaches is reached by a rule run to its
  end.
-/

namespace Squishc.Surface

/-- The first outcome lacks fuel or is the second one. -/
def Settles (s s' : Except Halt Cursor) : Prop := s = .error .outOfFuel ∨ s = s'

namespace Cursor

/-- Cursors in front of the same lexemes and in the same mode. -/
def Alike (c d : Cursor) : Prop :=
  c.rest.map Token.lexeme = d.rest.map Token.lexeme ∧ c.inHeader = d.inHeader

namespace Alike

variable {c d : Cursor}

theorem next (h : c.Alike d) : c.next.Alike d.next :=
  ⟨by rw [Cursor.next, Cursor.next, List.map_tail, List.map_tail, h.1], h.2⟩

theorem withHeader (h : c.Alike d) (mode : Bool) : (c.withHeader mode).Alike (d.withHeader mode) :=
  ⟨h.1, rfl⟩

theorem lexeme?_eq (h : c.Alike d) : c.lexeme? = d.lexeme? := by
  rw [lexeme?, lexeme?, current?, current?, ← List.head?_map, ← List.head?_map, h.1]

theorem second?_eq (h : c.Alike d) : c.second? = d.second? := by
  have hsecond : ∀ c : Cursor, c.second? = ((c.rest.map Token.lexeme)[1]?).or
      (c.rest.map Token.lexeme).getLast? := by
    intro c
    rw [second?, peek?, List.getElem?_map, List.getLast?_map]
    cases c.rest[1]? <;> rfl
  rw [hsecond, hsecond, h.1]

theorem fuelFor_eq (h : c.Alike d) : c.fuelFor = d.fuelFor := by
  rw [fuelFor, fuelFor, ← List.length_map (f := Token.lexeme), h.1, List.length_map]

end Alike

end Cursor

/-- Outcomes that differ at most in the places of the tokens. -/
inductive Matches : Except Halt Cursor → Except Halt Cursor → Prop
  | ok {c d : Cursor} (h : c.Alike d) : Matches (.ok c) (.ok d)
  | missing (what : Expected) {c d : Cursor} (h : c.Alike d) :
    Matches (.error (.missing what c)) (.error (.missing what d))
  | tooLong {c d : Cursor} (h : c.Alike d) : Matches (.error (.tooLong c)) (.error (.tooLong d))
  | outOfFuel : Matches (.error .outOfFuel) (.error .outOfFuel)

theorem Matches.exists_missing {what : Expected} {c : Cursor} {s : Except Halt Cursor}
    (h : Matches (.error (.missing what c)) s) :
    ∃ d, s = .error (.missing what d) ∧ c.Alike d := by
  cases h with
  | missing _ h => exact ⟨_, rfl, h⟩

namespace Plan

variable {ρ σ : Type} {calls calls' : ρ → Move} {below : σ → Move}

theorem exec_settles (hcalls : ∀ r c, Settles (calls r c) (calls' r c)) (p : Plan ρ σ) :
    ∀ c, Settles (p.exec calls below c) (p.exec calls' below c) := by
  induction p with
  | rule r => exact hcalls r
  | inMode mode p ih =>
    intro c
    rcases ih (c.withHeader mode) with hout | hsame
    · exact .inl (by rw [exec, hout]; rfl)
    · exact .inr (by rw [exec, exec, hsame])
  | seq p q ihp ihq =>
    intro c
    rcases ihp c with hout | hsame
    · exact .inl (by rw [exec, hout]; rfl)
    · rw [exec, exec, ← hsame]
      cases p.exec calls below c with
      | error halt => exact .inr rfl
      | ok middle => exact ihq middle
  | look choose ih => exact fun c => ih _ _ _ c
  | _ => exact fun c => .inr rfl

theorem run_settles {plan : ρ → Plan ρ σ} :
    ∀ {fuel fuel' : Nat}, fuel ≤ fuel' → ∀ r c,
      Settles (run plan below fuel r c) (run plan below fuel' r c)
  | 0, _, _ => fun _ _ => .inl rfl
  | _ + 1, 0, h => absurd h (Nat.not_succ_le_zero _)
  | _ + 1, _ + 1, h => fun r c => exec_settles (run_settles (Nat.le_of_succ_le_succ h)) (plan r) c

/-- What some fuel reaches is reached by any fuel that is enough. -/
theorem run_eq_of_ok {plan : ρ → Plan ρ σ} {fuel fuel' : Nat} {r : ρ} {c after : Cursor}
    (h : run plan below fuel r c = .ok after)
    (henough : run plan below fuel' r c ≠ .error .outOfFuel) :
    run plan below fuel' r c = .ok after := by
  have hmax : run plan below (max fuel fuel') r c = .ok after := by
    rcases run_settles (Nat.le_max_left fuel fuel') r c with hout | hsame
    · rw [h] at hout
      cases hout
    · rw [← hsame, h]
  rcases run_settles (Nat.le_max_right fuel fuel') r c with hout | hsame
  · exact absurd hout henough
  · rw [hsame, hmax]

theorem exec_matches (hcalls : ∀ r {c d}, c.Alike d → Matches (calls r c) (calls r d))
    (hbelow : ∀ r {c d}, c.Alike d → Matches (below r c) (below r d)) (p : Plan ρ σ) :
    ∀ {c d}, c.Alike d → Matches (p.exec calls below c) (p.exec calls below d) := by
  induction p with
  | done => exact .ok
  | take t =>
    intro c d h
    rw [exec, exec, Cursor.isAt_eq_any, Cursor.isAt_eq_any, h.lexeme?_eq]
    split
    · exact .ok h.next
    · exact .missing _ h
  | takeName =>
    intro c d h
    rw [exec, exec, Cursor.atName_eq_any, Cursor.atName_eq_any, h.lexeme?_eq]
    split
    · exact .ok h.next
    · exact .missing _ h
  | takeInt =>
    intro c d h
    rw [exec, exec, h.lexeme?_eq]
    split
    · split
      · exact .ok h.next
      · exact .tooLong h
    · exact .missing _ h
  | skip =>
    intro c d h
    rw [exec, exec, h.lexeme?_eq]
    split
    · exact .missing _ h
    · exact .missing _ h
    · exact .ok h.next
  | fail what => exact .missing what
  | rule r => exact hcalls r
  | lower r => exact hbelow r
  | inMode mode p ih =>
    intro c d h
    rw [exec, exec, h.2]
    generalize p.exec calls below (c.withHeader mode) = s,
      p.exec calls below (d.withHeader mode) = s', ih (h.withHeader mode) = hmatch
    cases hmatch with
    | ok h => exact .ok (h.withHeader _)
    | missing what h => exact .missing what h
    | tooLong h => exact .tooLong h
    | outOfFuel => exact .outOfFuel
  | seq p q ihp ihq =>
    intro c d h
    rw [exec, exec]
    generalize p.exec calls below c = s, p.exec calls below d = s', ihp h = hmatch
    cases hmatch with
    | ok h => exact ihq h
    | missing what h => exact .missing what h
    | tooLong h => exact .tooLong h
    | outOfFuel => exact .outOfFuel
  | look choose ih =>
    -- alike cursors have the same lexemes ahead, so the choice is the same
    intro c d h
    rw [exec, exec, h.lexeme?_eq, h.second?_eq, h.2]
    exact ih _ _ _ h

theorem run_matches {plan : ρ → Plan ρ σ}
    (hbelow : ∀ r {c d}, c.Alike d → Matches (below r c) (below r d)) :
    ∀ fuel r {c d}, c.Alike d → Matches (run plan below fuel r c) (run plan below fuel r d)
  | 0, _, _, _, _ => .outOfFuel
  | fuel + 1, r, _, _, h => exec_matches (run_matches hbelow fuel) hbelow (plan r) h

end Plan

theorem Bounded.ne_outOfFuel {advances : Prop} {c : Cursor} {s : Except Halt Cursor}
    (h : Bounded advances c s) : s ≠ .error .outOfFuel := by
  rintro rfl
  exact h

namespace LineRule

theorem full_eq_of_run {fuel : Nat} {r : LineRule} {c after : Cursor}
    (h : run fuel r c = .ok after) : r.full c = .ok after :=
  Plan.run_eq_of_ok h (r.full_bounded c).ne_outOfFuel

theorem full_matches (r : LineRule) {c d : Cursor} (h : c.Alike d) :
    Matches (r.full c) (r.full d) := by
  rw [full, full, h.fuelFor_eq]
  exact Plan.run_matches nofun _ r h

end LineRule

namespace StmtRule

theorem full_eq_of_run {fuel : Nat} {r : StmtRule} {c after : Cursor}
    (h : run fuel r c = .ok after) : r.full c = .ok after :=
  Plan.run_eq_of_ok h (r.full_bounded c).ne_outOfFuel

theorem full_matches (r : StmtRule) {c d : Cursor} (h : c.Alike d) :
    Matches (r.full c) (r.full d) := by
  rw [full, full, h.fuelFor_eq]
  exact Plan.run_matches LineRule.full_matches _ r h

end StmtRule

namespace ProgramRule

theorem full_eq_of_run {fuel : Nat} {r : ProgramRule} {c after : Cursor}
    (h : run fuel r c = .ok after) : r.full c = .ok after :=
  Plan.run_eq_of_ok h (r.full_bounded c).ne_outOfFuel

theorem full_matches (r : ProgramRule) {c d : Cursor} (h : c.Alike d) :
    Matches (r.full c) (r.full d) := by
  rw [full, full, h.fuelFor_eq]
  exact Plan.run_matches StmtRule.full_matches _ r h

end ProgramRule

end Squishc.Surface
