import Mathlib.Data.List.Basic

/-!
# Blocks of lines

A text whose blocks are marked by braces at the ends of lines can be taken apart without
knowing what the lines mean.  A line that ends in an opening brace opens a block, and a
line that begins with a closing brace closes one; a line may do both.  The block that a
line opens consists of the lines strictly between it and the first line behind them that
closes more than was opened.

Texts of this kind are put together from lines that open and close nothing and from blocks,
and `Runs` says what is known of every such part: how it moves the depth, which blocks it
holds, and that it has no end of a line within its lines.

Main results:

- Theorem `Runs.append`: parts can be put behind one another.
- Theorem `Runs.block`: a line that opens a block, its body, and lines that close it.
- Theorem `Runs.nests`: a text that is joined from such parts has their lines and blocks.
-/

namespace Squishc.Lines

/-! ## Lines that open and close -/

/-- Whether a line opens a block. -/
def opens (line : String) : Bool := line.toList.getLast? == some '\x7b'

/-- Whether a line closes a block. -/
def closes (line : String) : Bool := line.toList.head? == some '\x7d'

/-- The depth behind a line, if the line closes no block while none is open.  A line that
closes one block and opens another closes first. -/
def step? (depth : Nat) (line : String) : Option Nat :=
  let inner := if opens line then 1 else 0
  if closes line then
    match depth with
    | 0 => none
    | outer + 1 => some (outer + inner)
  else some (depth + inner)

/-- The depth behind some lines, if it never falls below zero. -/
def depth? (depth : Nat) (lines : List String) : Option Nat := lines.foldlM step? depth

/-- The lines in front of the first one that closes more than is open at a depth. -/
def enclosed? (depth : Nat) : List String → Option (List String)
  | [] => none
  | line :: rest =>
    match step? depth line with
    | none => some []
    | some next => (enclosed? next rest).map (line :: ·)

/-- A block: the line that opens it and the lines in it. -/
structure Block where
  header : String
  body : List String
deriving DecidableEq, Repr, Inhabited

/-- The blocks of some lines in the order of the lines that open them, if each of them is
closed. -/
def blocks? : List String → Option (List Block)
  | [] => some []
  | line :: rest => do
    let others ← blocks? rest
    if opens line then
      let body ← enclosed? 0 rest
      return ⟨line, body⟩ :: others
    else return others

/-! ## Texts and their lines -/

/-- Whether a text has no end of a line in it. -/
def isLine (text : String) : Bool := !text.toList.contains '\n'

/-- The lines of a text.  The empty text has one line, which is empty. -/
def splitLines (text : String) : List String := (text.toList.splitOn '\n').map String.ofList

theorem splitLines_joined {lines : List String} (h : ∀ line ∈ lines, isLine line = true)
    (hne : lines ≠ []) : splitLines ("\n".intercalate lines) = lines := by
  have hlines : ∀ chars ∈ lines.map String.toList, '\n' ∉ chars := by
    simpa [isLine] using h
  rw [splitLines, String.toList_intercalate]
  rw [show "\n".toList = ['\n'] from rfl, List.splitOn_intercalate '\n' hlines (by simpa using hne)]
  simp

/-! ## Parts of a text -/

/-- What is known of some lines that close as many more blocks than they open: they lower
the depth by that number and hold the given blocks.  What the lines behind them do is not
known, so the last two say how the lines are passed. -/
structure Runs (down : Nat) (lines : List String) (blocks : List Block) : Prop where
  isLine : ∀ line ∈ lines, isLine line = true
  depth : ∀ d, depth? (d + down) lines = some d
  enclosed : ∀ d rest, enclosed? (d + down) (lines ++ rest) = (enclosed? d rest).map (lines ++ ·)
  blocks : ∀ rest, blocks? (lines ++ rest) = (blocks? rest).map (blocks ++ ·)

/-- A line that opens a block and closes none. -/
structure IsHeader (line : String) : Prop where
  isLine : isLine line = true
  opens : opens line = true
  closes : closes line = false

/-- Lines that close a block: the first one does, and those behind it open and close
others. -/
structure Closes (lines : List String) (blocks : List Block) : Prop where
  runs : Runs 1 lines blocks
  first : lines.head?.any closes = true

theorem Closes.enclosed_zero {lines : List String} {bs : List Block} (h : Closes lines bs)
    (rest : List String) : enclosed? 0 (lines ++ rest) = some [] := by
  cases lines with
  | nil => cases h.first
  | cons line more =>
    have hfirst : closes line = true := h.first
    simp [enclosed?, step?, hfirst]

namespace Runs

variable {down : Nat} {line header : String} {lines lines' body : List String}
  {bs bs' cs : List Block}

theorem nil : Runs 0 [] [] where
  isLine := by simp
  depth d := rfl
  enclosed d rest := by simp
  blocks rest := by simp

theorem append (h : Runs 0 lines bs) (h' : Runs down lines' bs') :
    Runs down (lines ++ lines') (bs ++ bs') where
  isLine := List.forall_mem_append.mpr ⟨h.isLine, h'.isLine⟩
  depth d := by
    have hfirst : lines.foldlM step? (d + down) = some (d + down) := h.depth (d + down)
    rw [depth?, List.foldlM_append, hfirst]
    exact h'.depth d
  enclosed d rest := by
    have hfirst := h.enclosed (d + down) (lines' ++ rest)
    rw [Nat.add_zero] at hfirst
    rw [List.append_assoc, hfirst, h'.enclosed, Option.map_map]
    simp [Function.comp_def]
  blocks rest := by
    rw [List.append_assoc, h.blocks, h'.blocks, Option.map_map]
    simp [Function.comp_def]

/-- A line that opens no block, and lines behind it. -/
theorem cons (hline : Lines.isLine line = true) (hopens : opens line = false)
    (hstep : ∀ d, step? (d + down) line = some d) (h : Runs 0 lines bs) :
    Runs down (line :: lines) bs where
  isLine := List.forall_mem_cons.mpr ⟨hline, h.isLine⟩
  depth d := by
    rw [depth?, List.foldlM_cons, hstep]
    exact h.depth d
  enclosed d rest := by
    have hrest := h.enclosed d rest
    rw [Nat.add_zero] at hrest
    rw [List.cons_append, enclosed?, hstep]
    simp only [hrest, Option.map_map]
    rfl
  blocks rest := by
    rw [List.cons_append, blocks?, h.blocks, hopens]
    simp

/-- A line that opens a block, the body of the block, and lines that close it. -/
theorem opening (hline : Lines.isLine header = true) (hopens : opens header = true)
    (hstep : ∀ d, step? (d + down) header = some (d + 1)) (hbody : Runs 0 body bs)
    (htail : Closes lines cs) :
    Runs down (header :: (body ++ lines)) (⟨header, body⟩ :: (bs ++ cs)) where
  isLine := List.forall_mem_cons.mpr ⟨hline, (hbody.append htail.runs).isLine⟩
  depth d := by
    rw [depth?, List.foldlM_cons, hstep]
    exact (hbody.append htail.runs).depth d
  enclosed d rest := by
    rw [List.cons_append, enclosed?, hstep]
    simp only [(hbody.append htail.runs).enclosed d rest, Option.map_map]
    rfl
  blocks rest := by
    have henclosed : enclosed? 0 (body ++ lines ++ rest) = some body := by
      rw [List.append_assoc, hbody.enclosed, htail.enclosed_zero]
      simp
    rw [List.cons_append, blocks?, (hbody.append htail.runs).blocks, hopens, henclosed]
    cases blocks? rest <;> simp

/-- A line that opens and closes nothing. -/
theorem single (hline : Lines.isLine line = true) (hopens : opens line = false)
    (hcloses : closes line = false) : Runs 0 [line] [] :=
  nil.cons hline hopens fun d => by simp [step?, hopens, hcloses]

theorem block (h : IsHeader header) (hbody : Runs 0 body bs) (htail : Closes lines cs) :
    Runs 0 (header :: body ++ lines) (⟨header, body⟩ :: (bs ++ cs)) :=
  hbody.opening h.isLine h.opens (fun d => by simp [step?, h.opens, h.closes]) htail

end Runs

namespace Closes

variable {line header : String} {lines body : List String} {bs cs : List Block}

/-- A line that closes a block, and lines behind it. -/
theorem cons (hline : Lines.isLine line = true) (hopens : opens line = false)
    (hcloses : closes line = true) (h : Runs 0 lines bs) : Closes (line :: lines) bs where
  runs := h.cons hline hopens fun d => by simp [step?, hopens, hcloses]
  first := hcloses

/-- A line that closes one block and opens another, the body of that block, and lines that
close it. -/
theorem reopen (hline : Lines.isLine header = true) (hopens : opens header = true)
    (hcloses : closes header = true) (hbody : Runs 0 body bs) (htail : Closes lines cs) :
    Closes (header :: body ++ lines) (⟨header, body⟩ :: (bs ++ cs)) where
  runs := hbody.opening hline hopens (fun d => by simp [step?, hopens, hcloses]) htail
  first := hcloses

end Closes

/-! ## Whole texts -/

/-- A text whose lines are the given units, in which the depth never falls below zero and
ends at zero, and which has the given blocks.  A text without units has one empty line. -/
structure Nests (text : String) (units : List String) (blocks : List Block) : Prop where
  lines : splitLines text = if units = [] then [""] else units
  depth : depth? 0 (splitLines text) = some 0
  blocks : blocks? (splitLines text) = some blocks

theorem Runs.nests {units : List String} {bs : List Block} (h : Runs 0 units bs) :
    Nests ("\n".intercalate units) units bs := by
  have hblocks : blocks? units = some bs := by
    have hall := h.blocks []
    simpa [blocks?] using hall
  by_cases hne : units = []
  · subst hne
    obtain rfl : [] = bs := Option.some.inj hblocks
    exact ⟨rfl, rfl, rfl⟩
  · have hlines := splitLines_joined h.isLine hne
    refine ⟨?_, ?_, ?_⟩
    · rw [hlines, if_neg hne]
    · rw [hlines]
      exact h.depth 0
    · rw [hlines, hblocks]

end Squishc.Lines
