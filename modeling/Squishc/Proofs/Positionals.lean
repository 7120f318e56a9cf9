import Mathlib.Logic.Basic
import Squishc.CommandLine.Options

/-!
# Input arguments

Which arguments name an input depends on the options before them, since the
argument behind an option can be its value.  `words` settles that for the whole
list, without regard to where the reader gives up, and `parse` is then a plain
fold over words.

A draft remembers an input only by its path, and a dash has none.  A dash is
therefore forgotten, and another input may follow it.

Main results:

- Theorem `parse_eq_read`: arguments are read word by word.
- Theorem `Draft.read_eq_compile_iff`: when words end in a compilation, and in
  which one.
- Theorem `input_of_parse`: the last input is the one that counts.
-/

namespace Squishc.CommandLine

/-! ## Words -/

/-- An argument that stands for itself, or an option with its value. -/
inductive Word where
  | help
  | stage (value : String)
  | output (value : String)
  | incomplete (flag : String)
  | unknown (flag : String)
  | positional (argument : String)
deriving DecidableEq, Repr

/-- The words of a list of arguments. -/
def words : List String → List Word
  | [] => []
  | argument :: rest =>
    if isHelp argument then .help :: words rest
    else if isStageOption argument then
      match rest with
      | [] => [.incomplete argument]
      | value :: rest => .stage value :: words rest
    else if isOutputOption argument then
      match rest with
      | [] => [.incomplete argument]
      | value :: rest => .output value :: words rest
    else if looksLikeFlag argument then .unknown argument :: words rest
    else .positional argument :: words rest

namespace Word

/-- The input that a word names. -/
def positional? : Word → Option String
  | positional argument => some argument
  | _ => none

/-- A word at which reading ends, whatever came before it. -/
def stops : Word → Bool
  | help | incomplete _ | unknown _ => true
  | _ => false

theorem forall_stops_cons {w : Word} {ws : List Word} (h : w.stops = false) :
    (∀ v ∈ w :: ws, v.stops = false) ↔ ∀ v ∈ ws, v.stops = false := by
  simp [h]

end Word

/-- The inputs among words. -/
def inputs (ws : List Word) : List String := ws.filterMap Word.positional?

/-- The arguments that are neither options nor values of options. -/
def positionals (arguments : List String) : List String := inputs (words arguments)

@[simp] theorem inputs_nil : inputs [] = [] := rfl

@[simp] theorem inputs_positional (argument : String) (ws : List Word) :
    inputs (.positional argument :: ws) = argument :: inputs ws := rfl

/-! ## Reading words -/

namespace Draft

/-- What a draft holds after a word that does not stop it. -/
def note (d : Draft) : Word → Draft
  | .stage value => { d with stage := value }
  | .output value => { d with output? := some value }
  | .positional argument => { d with input? := inputOf argument }
  | _ => d

/-- Reads words up to the first one that gives the answer. -/
def read (d : Draft) : List Word → Except UsageFault Command
  | [] => d.finish
  | .help :: _ => .ok .help
  | .incomplete flag :: _ => .error (.missingValue flag)
  | .unknown flag :: _ => .error (.unknownFlag flag)
  | .stage value :: rest => (d.note (.stage value)).read rest
  | .output value :: rest => (d.note (.output value)).read rest
  | .positional argument :: rest =>
    if d.input?.isSome then .error (.unexpectedArgument argument)
    else (d.note (.positional argument)).read rest

/-- A draft can take the inputs to come: none of them if it has one already, and
otherwise any number of dashes and one more. -/
def Admits (d : Draft) (arguments : List String) : Prop :=
  (d.input?.isSome → arguments = []) ∧ ∀ argument ∈ arguments.dropLast, argument = "-"

end Draft

theorem parseFrom_eq_read (d : Draft) (arguments : List String) :
    parseFrom d arguments = d.read (words arguments) := by
  fun_induction parseFrom d arguments with
  | case1 d => rfl
  | case2 d argument rest hhelp =>
    rw [words.eq_def]
    simp only [hhelp, if_true, Draft.read]
  | case3 d argument hhelp hstage => simp [words, hhelp, hstage, Draft.read]
  | case4 d argument hhelp hstage value rest ih =>
    simp [words, hhelp, hstage, Draft.read, Draft.note, ih]
  | case5 d argument hhelp hstage houtput => simp [words, hhelp, hstage, houtput, Draft.read]
  | case6 d argument hhelp hstage houtput value rest ih =>
    simp [words, hhelp, hstage, houtput, Draft.read, Draft.note, ih]
  | case7 d argument rest hhelp hstage houtput hflag =>
    rw [words.eq_def]
    simp [hhelp, hstage, houtput, hflag, Draft.read]
  | case8 d argument rest hhelp hstage houtput hflag hinput =>
    rw [words.eq_def]
    simp [hhelp, hstage, houtput, hflag, Draft.read, hinput]
  | case9 d argument rest hhelp hstage houtput hflag hinput ih =>
    rw [words.eq_def]
    simp [hhelp, hstage, houtput, hflag, Draft.read, hinput, Draft.note, ih]

theorem parse_eq_read (arguments : List String) :
    parse arguments = Draft.initial.read (words arguments) :=
  parseFrom_eq_read _ _

/-! ## What is accepted -/

namespace Draft

/-- What a draft holds after words. -/
def noted (d : Draft) (ws : List Word) : Draft := ws.foldl note d

theorem noted_input (d : Draft) (ws : List Word) :
    (d.noted ws).input? = ((inputs ws).getLast?.map inputOf).getD d.input? := by
  induction ws generalizing d with
  | nil => rfl
  | cons w rest ih =>
    rw [noted, List.foldl_cons, ← noted, ih]
    cases w with
    | positional argument =>
      rw [inputs_positional, List.getLast?_cons]
      cases (inputs rest).getLast? with
      | none => rfl
      | some last => rfl
    | help => rfl
    | stage value => rfl
    | output value => rfl
    | incomplete flag => rfl
    | unknown flag => rfl

/-- A draft with no input takes an argument and those behind it if the argument is
a dash, or the last one. -/
theorem admits_cons_iff {d : Draft} (h : d.input?.isSome = false) (argument : String)
    (rest : List String) :
    d.Admits (argument :: rest) ↔ (d.note (.positional argument)).Admits rest := by
  cases rest with
  | nil => simp [Admits, h]
  | cons next others =>
    by_cases hdash : argument = "-" <;> simp [Admits, note, inputOf, h, hdash]

/-- Words end in a compilation if none of them stops the reader, the draft admits
their inputs, and the stage is known. -/
theorem read_eq_compile_iff (d : Draft) (ws : List Word) (options : Options) :
    d.read ws = .ok (.compile options) ↔
      d.Admits (inputs ws) ∧ (∀ w ∈ ws, w.stops = false) ∧
        (d.noted ws).finish = .ok (.compile options) := by
  fun_induction d.read ws with
  | case1 d => simp [Admits, noted]
  | case2 d rest => simp [Word.stops]
  | case3 d flag rest => simp [Word.stops]
  | case4 d flag rest => simp [Word.stops]
  | case5 d value rest ih =>
    rw [ih, Word.forall_stops_cons rfl]
    exact Iff.rfl
  | case6 d value rest ih =>
    rw [ih, Word.forall_stops_cons rfl]
    exact Iff.rfl
  | case7 d argument rest hinput => simp [Admits, hinput]
  | case8 d argument rest hinput ih =>
    rw [ih, Word.forall_stops_cons rfl, inputs_positional, admits_cons_iff (by simpa using hinput)]
    exact Iff.rfl

theorem initial_admits_iff (arguments : List String) :
    initial.Admits arguments ↔ ∀ argument ∈ arguments.dropLast, argument = "-" := by
  simp [Admits, initial]

theorem exists_finish_iff (d : Draft) :
    (∃ options, d.finish = .ok (.compile options)) ↔ Stage.ofText? d.stage ≠ none := by
  cases h : Stage.ofText? d.stage <;> simp [finish, h]

theorem input_of_finish {d : Draft} {options : Options}
    (h : d.finish = .ok (.compile options)) : options.input? = d.input? := by
  cases hstage : Stage.ofText? d.stage with
  | none => simp [finish, hstage] at h
  | some stage =>
    simp only [finish, hstage, Except.ok.injEq, Command.compile.injEq] at h
    rw [← h]

end Draft

/-! ## What is refused -/

/-- What arguments say, all faults aside. -/
def asked (arguments : List String) : Draft := Draft.initial.noted (words arguments)

theorem parse_eq_compile_iff (arguments : List String) (options : Options) :
    parse arguments = .ok (.compile options) ↔
      (∀ argument ∈ (positionals arguments).dropLast, argument = "-") ∧
        (∀ w ∈ words arguments, w.stops = false) ∧
          (asked arguments).finish = .ok (.compile options) := by
  rw [parse_eq_read, Draft.read_eq_compile_iff, Draft.initial_admits_iff]
  exact Iff.rfl

/-- The input of an accepted command line is what its last positional argument
names. -/
theorem input_of_parse {arguments : List String} {options : Options}
    (h : parse arguments = .ok (.compile options)) :
    options.input? = (positionals arguments).getLast?.bind inputOf := by
  obtain ⟨-, -, hfinish⟩ := (parse_eq_compile_iff _ _).mp h
  rw [Draft.input_of_finish hfinish, asked, Draft.noted_input, ← positionals]
  cases (positionals arguments).getLast? with
  | none => rfl
  | some last => rfl

/-- A command line that does not ask for help is either refused or compiled. -/
theorem parse_error_iff_of_ne_help {arguments : List String} (hhelp : parse arguments ≠ .ok .help) :
    (∃ fault, parse arguments = .error fault) ↔
      ¬ ∃ options, parse arguments = .ok (.compile options) := by
  cases h : parse arguments with
  | error fault => simp
  | ok command =>
    cases command with
    | help => exact absurd h hhelp
    | compile options => simp

/-- A command line that does not ask for help is refused if an input comes before
another one and is not a dash, if a word stops the reader, or if the stage is
unknown.  In all other cases the last input is read and the dashes before it
are not. -/
theorem only_dashes_may_repeat {arguments : List String} (hhelp : parse arguments ≠ .ok .help) :
    ((∃ fault, parse arguments = .error fault) ↔
      (∃ argument ∈ (positionals arguments).dropLast, argument ≠ "-") ∨
        (∃ w ∈ words arguments, w.stops = true) ∨
          Stage.ofText? (asked arguments).stage = none) ∧
    ∀ options, parse arguments = .ok (.compile options) →
      options.input? = (positionals arguments).getLast?.bind inputOf := by
  refine ⟨?_, fun options h => input_of_parse h⟩
  rw [parse_error_iff_of_ne_help hhelp]
  simp only [parse_eq_compile_iff, exists_and_left, Draft.exists_finish_iff, not_and_or, not_forall,
    exists_prop, Bool.not_eq_false, ne_eq, not_not]

theorem input_between_dashes_refused :
    parse ["-", "-o", "b.js", "a.squishi", "-"] ≠ .ok .help ∧
      ∃ fault, parse ["-", "-o", "b.js", "a.squishi", "-"] = .error fault := by
  have hrefused : parse ["-", "-o", "b.js", "a.squishi", "-"] =
      .error (.unexpectedArgument "-") := by
    rfl
  have hhelp : parse ["-", "-o", "b.js", "a.squishi", "-"] ≠ .ok .help := by simp [hrefused]
  refine ⟨hhelp, (only_dashes_may_repeat hhelp).1.mpr (.inl ⟨"a.squishi", ?_, ?_⟩)⟩
  · decide
  · decide

/-- An input may follow a dash: a second input is not always refused. -/
theorem second_input_accepted :
    ¬ ∀ arguments, parse arguments ≠ .ok .help → 2 ≤ (positionals arguments).length →
      ∃ fault, parse arguments = .error fault := by
  intro h
  have haccepted : parse ["-", "a.squishi"] = .ok (.compile ⟨.js, some "a.squishi", none⟩) := by
    rfl
  obtain ⟨fault, hfault⟩ := h ["-", "a.squishi"] (by simp [haccepted]) (by decide)
  rw [haccepted] at hfault
  cases hfault

end Squishc.CommandLine
