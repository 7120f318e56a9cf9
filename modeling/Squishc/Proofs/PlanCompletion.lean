import Squishc.Proofs.PlanRuns

/-!
# Completing what a plan has taken

A plan takes some tokens in front of a lexeme if it takes exactly them wherever this
lexeme follows.  A plan is viable for some closing lexemes if its runs say more than
where they end: tokens that were passed are taken in front of the closing lexemes too,
and tokens in front of a halt can be completed to tokens that are taken in front of
the closing lexemes.

Plans are put together from viable plans.  In a sequence the second plan needs a
filler, tokens that it takes in front of its closing lexemes, for the case that the
halt is in the first plan or right behind it.

Main results:

- Theorem `Viable.seq`: a sequence of viable plans is viable.
- Theorem `Viable.look`: so is a choice by the next lexeme.
- Theorem `Layer.viable_run`: so are the rules of a layer, if their plans are viable
  whenever the rules are.
-/

namespace Squishc.Surface

/-- Rules with their plans, what the rules below do, and which rules always take a
token. -/
structure Layer (ρ σ : Type) where
  plan : ρ → Plan ρ σ
  below : σ → Move
  advances : ρ → Bool
  advances' : σ → Bool

/-- The first of some lexemes that the given one follows. -/
def firstOf : List Token → Lexeme → Lexeme
  | [], l => l
  | t :: _, _ => t.lexeme

theorem firstOf_append {ts us : List Token} (h : ts ≠ []) (l : Lexeme) :
    firstOf (ts ++ us) l = firstOf ts l := by
  cases ts with
  | nil => exact absurd rfl h
  | cons t ts => rfl

theorem Cursor.lexeme?_append {ts : List Token} (h : ts ≠ []) (rest : List Token) (mode : Bool)
    (l : Lexeme) : (Cursor.mk (ts ++ rest) mode).lexeme? = some (firstOf ts l) := by
  cases ts with
  | nil => exact absurd rfl h
  | cons t ts => rfl

variable {ρ σ : Type}

namespace Layer

/-- Runs a plan with calls of bounded depth. -/
def exec (L : Layer ρ σ) (fuel : Nat) (p : Plan ρ σ) : Move :=
  p.exec (Plan.run L.plan L.below fuel) L.below

/-- A plan takes exactly the given tokens wherever the given lexeme follows. -/
def Takes (L : Layer ρ σ) (p : Plan ρ σ) (mode : Bool) (ts : List Token) (l : Lexeme) : Prop :=
  ∀ t rest, t.lexeme = l →
    ∃ fuel, L.exec fuel p ⟨ts ++ t :: rest, mode⟩ = .ok ⟨t :: rest, mode⟩

/-- A plan takes the given tokens in front of each closing lexeme. -/
def Fills (L : Layer ρ σ) (p : Plan ρ σ) (closes : Bool → Lexeme → Prop) (ts : List Token) : Prop :=
  ∀ mode l, closes mode l → L.Takes p mode ts l

/-- Always takes a token. -/
def Advances (L : Layer ρ σ) (p : Plan ρ σ) : Prop := p.Advances L.advances L.advances'

/-- What an outcome says about the tokens that were passed. -/
def Fate (L : Layer ρ σ) (p : Plan ρ σ) (closes : Bool → Lexeme → Prop) (c : Cursor) :
    Except Halt Cursor → Prop
  | .ok after =>
    ∃ ts, c = ⟨ts ++ after.rest, after.inHeader⟩ ∧ (L.Advances p → ts ≠ []) ∧
      ∀ l, after.lexeme? = some l ∨ closes c.inHeader l → L.Takes p c.inHeader ts l
  | .error (.missing _ d) =>
    ∃ ts, c.rest = ts ++ d.rest ∧ (ts ≠ [] →
      ∃ more, ∀ l, closes c.inHeader l → L.Takes p c.inHeader (ts ++ more) l)
  | .error _ => True

/-- The outcome of every run of bounded depth says so. -/
def Viable (L : Layer ρ σ) (fuel : Nat) (p : Plan ρ σ) (closes : Bool → Lexeme → Prop) : Prop :=
  ∀ c, L.Fate p closes c (L.exec fuel p c)

variable {L : Layer ρ σ} {p q : Plan ρ σ} {closes closes' : Bool → Lexeme → Prop} {fuel : Nat}
  {mode : Bool} {ts us : List Token} {l : Lexeme} {c : Cursor}

theorem exec_ok_mono {fuel' : Nat} (hle : fuel ≤ fuel') {after : Cursor}
    (h : L.exec fuel p c = .ok after) : L.exec fuel' p c = .ok after := by
  have hsettles : Settles (L.exec fuel p c) (L.exec fuel' p c) :=
    Plan.exec_settles (Plan.run_settles hle) p c
  rcases hsettles with hout | hsame
  · rw [hout] at h
    cases h
  · rw [← hsame, h]

/-! ## Taking tokens -/

namespace Takes

theorem done : L.Takes .done mode [] l := fun _ _ _ => ⟨0, rfl⟩

theorem seq (hp : L.Takes p mode ts (firstOf us l)) (hq : L.Takes q mode us l) :
    L.Takes (.seq p q) mode (ts ++ us) l := by
  intro t rest ht
  obtain ⟨fuel, hq⟩ := hq t rest ht
  obtain ⟨fuel', hp⟩ : ∃ fuel', L.exec fuel' p ⟨ts ++ (us ++ t :: rest), mode⟩ =
      .ok ⟨us ++ t :: rest, mode⟩ := by
    cases us with
    | nil => exact hp t rest ht
    | cons u us => exact hp u (us ++ t :: rest) rfl
  refine ⟨max fuel fuel', ?_⟩
  have hp' := exec_ok_mono (Nat.le_max_right fuel fuel') hp
  have hq' := exec_ok_mono (Nat.le_max_left fuel fuel') hq
  rw [List.append_assoc]
  simp only [exec] at hp' hq' ⊢
  rw [Plan.exec, hp']
  exact hq'

/-- A second plan that takes nothing. -/
theorem seq_silent (hp : L.Takes p mode ts l) (hq : L.Takes q mode [] l) :
    L.Takes (.seq p q) mode ts l := by
  rw [← List.append_nil ts]
  exact Takes.seq hp hq

theorem inMode {mode' : Bool} (h : L.Takes p mode' ts l) : L.Takes (.inMode mode' p) mode ts l := by
  intro t rest ht
  obtain ⟨fuel, h⟩ := h t rest ht
  refine ⟨fuel, ?_⟩
  simp only [exec] at h ⊢
  rw [Plan.exec, Cursor.withHeader, h]
  rfl

theorem rule {r : ρ} (h : L.Takes (L.plan r) mode ts l) : L.Takes (.rule r) mode ts l := by
  intro t rest ht
  obtain ⟨fuel, h⟩ := h t rest ht
  exact ⟨fuel + 1, h⟩

theorem token {t : Token}
    (h : ∀ fuel rest, L.exec fuel p ⟨t :: rest, mode⟩ = .ok ⟨rest, mode⟩) :
    L.Takes p mode [t] l :=
  fun t' rest _ => ⟨0, h 0 (t' :: rest)⟩

theorem take {terminal : Terminal} {t : Token} (ht : terminal.isMetBy t.lexeme = true) :
    L.Takes (.take terminal) mode [t] l :=
  token fun _ _ => if_pos ht

theorem after {terminal : Terminal} {t : Token} (ht : terminal.isMetBy t.lexeme = true)
    (h : L.Takes p mode ts l) : L.Takes (.after terminal p) mode (t :: ts) l :=
  (take ht).seq h

theorem takeName {t : Token} (ht : isName t.lexeme = true) : L.Takes .takeName mode [t] l := by
  refine token fun _ rest => if_pos ?_
  rw [Cursor.atName_eq_any]
  exact ht

section Look

variable {choose : Option Lexeme → Option Lexeme → Bool → Plan ρ σ}

/-- Two tokens decide a choice. -/
theorem look_two {t t' : Token}
    (h : L.Takes (choose (some t.lexeme) (some t'.lexeme) mode) mode (t :: t' :: ts) l) :
    L.Takes (.look choose) mode (t :: t' :: ts) l := by
  intro t rest ht
  obtain ⟨fuel, h⟩ := h t rest ht
  exact ⟨fuel, h⟩

/-- A token and the lexeme behind it decide a choice. -/
theorem look_one {t : Token} (h : L.Takes (choose (some t.lexeme) (some l) mode) mode [t] l) :
    L.Takes (.look choose) mode [t] l := by
  intro t rest ht
  obtain ⟨fuel, h⟩ := h t rest ht
  subst ht
  exact ⟨fuel, h⟩

/-- Where the second lexeme does not matter, the first one decides. -/
theorem look (h : ∀ y, L.Takes (choose (some (firstOf ts l)) y mode) mode ts l) :
    L.Takes (.look choose) mode ts l := by
  intro t rest ht
  have hlexeme : (Cursor.mk (ts ++ t :: rest) mode).lexeme? = some (firstOf ts l) := by
    cases ts with
    | nil => exact congrArg some ht
    | cons t ts => rfl
  obtain ⟨fuel, h⟩ := h (Cursor.mk (ts ++ t :: rest) mode).second? t rest ht
  refine ⟨fuel, ?_⟩
  rw [exec, Plan.exec, hlexeme]
  exact h

theorem ifAt_yes {terminal : Terminal} (hmet : terminal.isMetBy (firstOf ts l) = true)
    (h : L.Takes p mode ts l) : L.Takes (.ifAt terminal p q) mode ts l := by
  refine look fun _ => ?_
  dsimp only [Option.any]
  rw [if_pos hmet]
  exact h

theorem ifAt_no {terminal : Terminal} (hmet : ¬ terminal.isMetBy (firstOf ts l) = true)
    (h : L.Takes q mode ts l) : L.Takes (.ifAt terminal p q) mode ts l := by
  refine look fun _ => ?_
  dsimp only [Option.any]
  rw [if_neg hmet]
  exact h

end Look

end Takes

/-! ## Viable plans -/

/-- A plan that takes what another one takes shares its fate. -/
theorem Fate.imp {ρ' σ' : Type} {L' : Layer ρ' σ'} {q : Plan ρ' σ'} {s : Except Halt Cursor}
    (h : L.Fate p closes c s) (hadvances : L'.Advances q → L.Advances p)
    (hcloses : ∀ l, closes' c.inHeader l → closes c.inHeader l)
    (htakes : ∀ ts l, L.Takes p c.inHeader ts l → L'.Takes q c.inHeader ts l) :
    L'.Fate q closes' c s := by
  rcases s with (_ | _ | _) | after
  · obtain ⟨ts, hc, hmore⟩ := h
    refine ⟨ts, hc, fun hne => ?_⟩
    obtain ⟨more, hmore⟩ := hmore hne
    exact ⟨more, fun l hl => htakes _ l (hmore l (hcloses l hl))⟩
  · trivial
  · trivial
  · obtain ⟨ts, hc, hadv, htaken⟩ := h
    exact ⟨ts, hc, fun hq => hadv (hadvances hq),
      fun l hl => htakes ts l (htaken l (hl.imp id (hcloses l)))⟩

/-- A halt at the first token says nothing. -/
theorem Fate.start (what : Expected) (c : Cursor) :
    L.Fate p closes c (.error (.missing what c)) :=
  ⟨[], rfl, fun h => absurd rfl h⟩

theorem Fate.token {t : Token} {rest : List Token}
    (h : ∀ fuel rest, L.exec fuel p ⟨t :: rest, mode⟩ = .ok ⟨rest, mode⟩) :
    L.Fate p closes ⟨t :: rest, mode⟩ (.ok ⟨rest, mode⟩) :=
  ⟨[t], rfl, fun _ => List.cons_ne_nil t [], fun _ _ => Takes.token h⟩

/-- The fate of the second plan of a sequence, behind what the first one took. -/
theorem Fate.behind {s : Except Halt Cursor} (h : L.Fate q closes c s)
    (hadvances : L.Advances p → ts ≠ [])
    (htakes : ∀ l, c.lexeme? = some l ∨ closes' c.inHeader l → L.Takes p c.inHeader ts l)
    (hfills : ∀ l, closes c.inHeader l → L.Takes q c.inHeader us l)
    (hfirst : ∀ l, closes c.inHeader l → closes' c.inHeader (firstOf us l))
    (hcloses : L.Advances q ∨ ∀ l, closes c.inHeader l → closes' c.inHeader l) :
    L.Fate (.seq p q) closes ⟨ts ++ c.rest, c.inHeader⟩ s := by
  rcases s with (⟨what, d⟩ | _ | _) | after
  · obtain ⟨vs, hc, hmore⟩ := h
    refine ⟨ts ++ vs, by rw [List.append_assoc, ← hc], fun _ => ?_⟩
    by_cases hvs : vs = []
    · -- nothing of the second plan was taken, so its filler completes the first
      refine ⟨us, fun l hl => ?_⟩
      rw [hvs, List.append_nil]
      exact (htakes _ (.inr (hfirst l hl))).seq (hfills l hl)
    · obtain ⟨more, hmore⟩ := hmore hvs
      refine ⟨more, fun l hl => ?_⟩
      rw [List.append_assoc]
      refine (htakes _ (.inl ?_)).seq (hmore l hl)
      rw [firstOf_append hvs, ← Cursor.lexeme?_append hvs d.rest c.inHeader, ← hc]
  · trivial
  · trivial
  · obtain ⟨vs, rfl, hadvances', htakes'⟩ := h
    refine ⟨ts ++ vs, by rw [List.append_assoc], fun hany hnil => ?_, fun l hl => ?_⟩
    · obtain ⟨rfl, rfl⟩ := List.append_eq_nil_iff.mp hnil
      rcases hany with hany | hany
      · exact hadvances hany rfl
      · exact hadvances' hany rfl
    · refine (htakes _ ?_).seq (htakes' l hl)
      by_cases hvs : vs = []
      · subst hvs
        rcases hl with hl | hl
        · exact .inl hl
        · rcases hcloses with hq | hcloses
          · exact absurd rfl (hadvances' hq)
          · exact .inr (hcloses l hl)
      · exact .inl (Cursor.lexeme?_append hvs _ _ _)

section Look

variable {choose : Option Lexeme → Option Lexeme → Bool → Plan ρ σ} {s : Except Halt Cursor}

/-- A choice by the next lexeme.  A plan that may take nothing is the one that is chosen
at a closing lexeme. -/
theorem Fate.look (h : L.Fate p closes c s) (hchosen : ∀ y, choose c.lexeme? y c.inHeader = p)
    (hsilent : L.Advances p ∨ ∀ y l, closes c.inHeader l → choose (some l) y c.inHeader = p) :
    L.Fate (.look choose) closes c s := by
  have htake : ∀ {ts l}, c.lexeme? = some (firstOf ts l) → L.Takes p c.inHeader ts l →
      L.Takes (.look choose) c.inHeader ts l := by
    intro ts l hl htakes
    refine Takes.look fun y => ?_
    rw [← hl, hchosen]
    exact htakes
  rcases s with (⟨what, d⟩ | _ | _) | after
  · obtain ⟨ts, hc, hmore⟩ := h
    refine ⟨ts, hc, fun hne => ?_⟩
    obtain ⟨more, hmore⟩ := hmore hne
    refine ⟨more, fun l hl => htake ?_ (hmore l hl)⟩
    rw [firstOf_append hne, ← Cursor.lexeme?_append hne d.rest c.inHeader, ← hc]
  · trivial
  · trivial
  · obtain ⟨ts, hc, hadvances, htakes⟩ := h
    refine ⟨ts, hc, fun hall => hadvances (hchosen none ▸ hall _ _ _), fun l hl => ?_⟩
    by_cases hts : ts = []
    · -- nothing was taken, so the choice is made by the lexeme behind
      subst hts
      rcases hl with hl | hl
      · exact htake (by rw [hc]; exact hl) (htakes l (.inl hl))
      · rcases hsilent with hadv | hsame
        · exact absurd rfl (hadvances hadv)
        · refine Takes.look fun y => ?_
          rw [firstOf, hsame y l hl]
          exact htakes l (.inr hl)
    · refine htake ?_ (htakes l hl)
      rw [← Cursor.lexeme?_append hts after.rest after.inHeader, ← hc]

/-- A choice by the next two lexemes.  The second one is among the tokens that were
passed or follows them, unless a single token has to be completed. -/
theorem Fate.look_second (h : L.Fate p closes c s)
    (hchosen : choose c.lexeme? c.second? c.inHeader = p) (hadvances : L.Advances p)
    (hcomplete : ∀ t rest, c.rest = t :: rest →
      ∃ more, ∀ l, closes c.inHeader l → L.Takes (.look choose) c.inHeader (t :: more) l)
    (hsingle : ∀ t rest l, c.rest = t :: rest → s = .ok ⟨rest, c.inHeader⟩ →
      closes c.inHeader l → L.Takes p c.inHeader [t] l → L.Takes (.look choose) c.inHeader [t] l) :
    L.Fate (.look choose) closes c s := by
  have htwo : ∀ {t t' ts rest l}, c.rest = t :: t' :: rest →
      L.Takes p c.inHeader (t :: t' :: ts) l →
      L.Takes (.look choose) c.inHeader (t :: t' :: ts) l := by
    intro t t' ts rest l hrest htakes
    refine Takes.look_two ?_
    have hfirst : c.lexeme? = some t.lexeme := by rw [Cursor.lexeme?, Cursor.current?, hrest]; rfl
    have hsecond : c.second? = some t'.lexeme := by rw [Cursor.second?, Cursor.peek?, hrest]; rfl
    rw [← hfirst, ← hsecond, hchosen]
    exact htakes
  rcases s with (⟨what, d⟩ | _ | _) | after
  · obtain ⟨ts, hc, hmore⟩ := h
    refine ⟨ts, hc, fun hne => ?_⟩
    obtain ⟨more, hmore⟩ := hmore hne
    rcases ts with _ | ⟨t, _ | ⟨t', ts⟩⟩
    · exact absurd rfl hne
    · exact hcomplete t d.rest hc
    · exact ⟨more, fun l hl => htwo hc (hmore l hl)⟩
  · trivial
  · trivial
  · obtain ⟨ts, rfl, hadv, htakes⟩ := h
    refine ⟨ts, rfl, fun _ => hadv hadvances, fun l hl => ?_⟩
    rcases ts with _ | ⟨t, _ | ⟨t', ts⟩⟩
    · exact absurd rfl (hadv hadvances)
    · rcases hl with hl | hl
      · obtain ⟨t', rest, mode, rfl, rfl⟩ := Cursor.exists_of_lexeme? hl
        exact Takes.look_one (hchosen ▸ htakes t'.lexeme (.inl hl))
      · exact hsingle t after.rest l rfl rfl hl (htakes l (.inr hl))
    · exact htwo rfl (htakes l hl)

end Look

namespace Viable

theorem done : L.Viable fuel .done closes :=
  fun _ => ⟨[], rfl, False.elim, fun _ _ => Takes.done⟩

theorem fail (what : Expected) : L.Viable fuel (.fail what) closes := Fate.start what

theorem take (terminal : Terminal) : L.Viable fuel (.take terminal) closes := by
  intro c
  rw [exec, Plan.exec]
  split
  · rename_i hat
    obtain ⟨t, rest, mode, rfl, ht⟩ := Cursor.exists_of_isAt hat
    exact Fate.token fun _ _ => if_pos ht
  · exact Fate.start _ c

theorem takeName : L.Viable fuel .takeName closes := by
  intro c
  rw [exec, Plan.exec]
  split
  · rename_i hat
    rcases c with ⟨_ | ⟨t, rest⟩, mode⟩
    · cases hat
    · exact Fate.token fun _ _ => if_pos hat
  · exact Fate.start _ c

theorem takeInt : L.Viable fuel .takeInt closes := by
  intro c
  rw [exec, Plan.exec]
  split
  · rename_i digits hl
    obtain ⟨t, rest, mode, rfl, ht⟩ := Cursor.exists_of_lexeme? hl
    split
    · rename_i hshort
      refine Fate.token fun _ _ => ?_
      rw [exec, Plan.exec, Cursor.lexeme?, Cursor.current?]
      simp only [List.head?_cons, Option.map_some, ht]
      exact if_pos hshort
    · trivial
  · exact Fate.start _ c

theorem skip : L.Viable fuel .skip closes := by
  intro c
  rw [exec, Plan.exec]
  split
  · exact Fate.start _ c
  · exact Fate.start _ c
  · rename_i l hend hl
    obtain ⟨t, rest, mode, rfl, ht⟩ := Cursor.exists_of_lexeme? hl
    refine Fate.token fun _ _ => ?_
    rw [exec, Plan.exec, Cursor.lexeme?, Cursor.current?]
    simp only [List.head?_cons, Option.map_some, ht]
    cases l with
    | eof => exact absurd rfl hend
    | _ => rfl

theorem inMode {mode' : Bool} (h : L.Viable fuel p closes) :
    L.Viable fuel (.inMode mode' p) (fun _ => closes mode') := by
  intro c
  have h := h (c.withHeader mode')
  rw [exec, Plan.exec]
  rw [exec] at h
  generalize p.exec (Plan.run L.plan L.below fuel) L.below (c.withHeader mode') = s at h ⊢
  rcases s with (⟨what, d⟩ | _ | _) | after
  · obtain ⟨ts, hc, hmore⟩ := h
    refine ⟨ts, hc, fun hne => ?_⟩
    obtain ⟨more, hmore⟩ := hmore hne
    exact ⟨more, fun l hl => (hmore l hl).inMode⟩
  · trivial
  · trivial
  · obtain ⟨ts, hc, hadvances, htakes⟩ := h
    exact ⟨ts, congrArg (Cursor.withHeader · c.inHeader) hc, hadvances,
      fun l hl => (htakes l hl).inMode⟩

/-- The filler completes what the first plan has taken.  A second plan that may take
nothing has closing lexemes of the first one only. -/
theorem seq (hp : L.Viable fuel p closes') (hq : L.Viable fuel q closes)
    (hfills : L.Fills q closes us)
    (hfirst : ∀ mode l, closes mode l → closes' mode (firstOf us l))
    (hcloses : L.Advances q ∨ ∀ mode l, closes mode l → closes' mode l) :
    L.Viable fuel (.seq p q) closes := by
  intro c
  have h := hp c
  rw [exec, Plan.exec]
  rw [exec] at h
  generalize p.exec (Plan.run L.plan L.below fuel) L.below c = s at h ⊢
  rcases s with (⟨what, d⟩ | _ | _) | middle
  · -- the halt is in the first plan
    obtain ⟨ts, hc, hmore⟩ := h
    refine ⟨ts, hc, fun hne => ?_⟩
    obtain ⟨more, hmore⟩ := hmore hne
    refine ⟨more ++ us, fun l hl => ?_⟩
    rw [← List.append_assoc]
    exact (hmore _ (hfirst _ l hl)).seq (hfills _ l hl)
  · trivial
  · trivial
  · obtain ⟨ts, rfl, hadvances, htakes⟩ := h
    exact (hq middle).behind hadvances htakes (hfills _) (hfirst _) (hcloses.imp id fun h => h _)

/-- Two plans that advance pass two tokens. -/
theorem length_seq {after : Cursor} (hp : L.Viable fuel p closes') (hq : L.Viable fuel q closes)
    (hadvp : L.Advances p) (hadvq : L.Advances q) (h : L.exec fuel (.seq p q) c = .ok after) :
    after.rest.length + 2 ≤ c.rest.length := by
  have hp := hp c
  rw [exec, Plan.exec] at h
  rw [exec] at hp
  generalize p.exec (Plan.run L.plan L.below fuel) L.below c = s at h hp
  rcases s with halt | middle
  · cases h
  · obtain ⟨ts, rfl, hts, -⟩ := hp
    have hq := hq middle
    rw [show L.exec fuel q middle = .ok after from h] at hq
    obtain ⟨us, rfl, hus, -⟩ := hq
    have := List.length_pos_iff.mpr (hts hadvp)
    have := List.length_pos_iff.mpr (hus hadvq)
    simp only [List.length_append]
    omega

theorem after (terminal : Terminal) (hp : L.Viable fuel p closes)
    (hfills : L.Fills p closes us) : L.Viable fuel (.after terminal p) closes :=
  (take terminal : L.Viable fuel _ fun _ _ => True).seq hp hfills (fun _ _ _ => trivial)
    (.inr fun _ _ _ => trivial)

theorem look {choose : Option Lexeme → Option Lexeme → Bool → Plan ρ σ}
    (h : ∀ c, L.Fate (.look choose) closes c
      (L.exec fuel (choose c.lexeme? c.second? c.inHeader) c)) :
    L.Viable fuel (.look choose) closes := h

/-- Where the next lexeme decides for a viable plan. -/
theorem look_at {choose : Option Lexeme → Option Lexeme → Bool → Plan ρ σ}
    (h : L.Viable fuel p closes) (hchosen : ∀ y, choose c.lexeme? y c.inHeader = p)
    (hadvances : L.Advances p) : L.Fate (.look choose) closes c (L.exec fuel (.look choose) c) := by
  rw [exec, Plan.exec, hchosen]
  exact (h c).look hchosen (.inl hadvances)

theorem ifAt {terminal : Terminal} (hp : L.Viable fuel p closes) (hq : L.Viable fuel q closes)
    (hyes : L.Advances p)
    (hno : L.Advances q ∨ ∀ mode l, closes mode l → ¬ terminal.isMetBy l = true) :
    L.Viable fuel (.ifAt terminal p q) closes := by
  refine look fun c => ?_
  split
  · rename_i hat
    exact (hp c).look (fun _ => if_pos hat) (.inl hyes)
  · rename_i hat
    exact (hq c).look (fun _ => if_neg hat) (hno.imp id fun h _ l hl => if_neg (h _ l hl))

/-- A choice between plans that advance. -/
theorem ifAt_advances (terminal : Terminal) (hp : L.Viable fuel p closes ∧ L.Advances p)
    (hq : L.Viable fuel q closes ∧ L.Advances q) :
    L.Viable fuel (.ifAt terminal p q) closes ∧ L.Advances (.ifAt terminal p q) :=
  ⟨hp.1.ifAt hq.1 hp.2 (.inl hq.2), Plan.Advances.ifAt hp.2 hq.2⟩

end Viable

/-- A viable plan and what it takes in front of its closing lexemes. -/
structure Filled (L : Layer ρ σ) (fuel : Nat) (p : Plan ρ σ) (closes : Bool → Lexeme → Prop)
    (ts : List Token) : Prop where
  viable : L.Viable fuel p closes
  fills : L.Fills p closes ts

namespace Filled

theorem take (terminal : Terminal) (t : Token) (ht : terminal.isMetBy t.lexeme = true) :
    L.Filled fuel (.take terminal) closes [t] :=
  ⟨Viable.take terminal, fun _ _ _ => Takes.take ht⟩

theorem takeName (t : Token) (ht : isName t.lexeme = true) : L.Filled fuel .takeName closes [t] :=
  ⟨Viable.takeName, fun _ _ _ => Takes.takeName ht⟩

theorem inMode {mode' : Bool} (h : L.Filled fuel p closes ts) :
    L.Filled fuel (.inMode mode' p) (fun _ => closes mode') ts :=
  ⟨h.viable.inMode, fun _ l hl => (h.fills mode' l hl).inMode⟩

theorem seq (hp : L.Filled fuel p closes' ts) (hq : L.Filled fuel q closes us)
    (hfirst : ∀ mode l, closes mode l → closes' mode (firstOf us l))
    (hcloses : L.Advances q ∨ ∀ mode l, closes mode l → closes' mode l) :
    L.Filled fuel (.seq p q) closes (ts ++ us) :=
  ⟨hp.viable.seq hq.viable hq.fills hfirst hcloses,
    fun mode l hl => (hp.fills mode _ (hfirst mode l hl)).seq (hq.fills mode l hl)⟩

theorem after (terminal : Terminal) (t : Token) (ht : terminal.isMetBy t.lexeme = true)
    (h : L.Filled fuel p closes ts) : L.Filled fuel (.after terminal p) closes (t :: ts) :=
  ⟨Viable.after terminal h.viable h.fills, fun mode l hl => Takes.after ht (h.fills mode l hl)⟩

/-- A part that may be left out. -/
theorem optional (terminal : Terminal) (h : L.Viable fuel p closes) (hadvances : L.Advances p)
    (hcloses : ∀ mode l, closes mode l → ¬ terminal.isMetBy l = true) :
    L.Filled fuel (.ifAt terminal p .done) closes [] :=
  ⟨h.ifAt Viable.done hadvances (.inr hcloses),
    fun mode l hl => Takes.ifAt_no (hcloses mode l hl) Takes.done⟩

end Filled

/-- The rules of a layer are viable if their plans are, whenever the rules are. -/
theorem viable_run {closes : ρ → Bool → Lexeme → Prop}
    (hadvances : ∀ r, L.advances r → L.Advances (L.plan r))
    (hplan : ∀ fuel, (∀ r, L.Viable fuel (.rule r) (closes r)) →
      ∀ r, L.Viable fuel (L.plan r) (closes r)) :
    ∀ fuel r, L.Viable fuel (.rule r) (closes r) := by
  intro fuel
  induction fuel with
  | zero => exact fun r c => trivial
  | succ fuel ih =>
    intro r c
    have h : L.Fate (L.plan r) (closes r) c (L.exec (fuel + 1) (.rule r) c) := hplan fuel ih r c
    exact h.imp (hadvances r) (fun _ => id) fun _ _ => Takes.rule

end Layer

end Squishc.Surface
