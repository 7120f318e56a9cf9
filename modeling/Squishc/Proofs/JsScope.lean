import Mathlib.Data.List.Basic
import Squishc.Js.Tree

/-!
# Scopes of JavaScript

Where the names of a JavaScript program are known.  A name that is declared with
`let` or `const`, by a function declaration or in the header of a loop is known
in its own block or loop; a name that is declared with `var` is known in the
whole function around it, and so are parameters.

A program is well bound if every name is used where it is known and only behind
the text of its declaration.  It is clear of clashes if no block, header or list
of parameters declares a name twice and no `var` crosses a block that declares
its name.

Main results:

- Theorem `boundAll_append`: statements one after the other.
- Theorems `Stmt.Bound.mono`, `BoundAll.mono`: more names may be known.
-/

namespace Squishc.Js

/-! ## Names -/

mutual

/-- The names in an expression. -/
def Expr.names : Expr → List String
  | .name n => [n.text]
  | .unary _ operand => operand.names
  | .binary _ left right => left.names ++ right.names
  | .conditional test consequent alternate =>
    test.names ++ (consequent.names ++ alternate.names)
  | .call callee args => callee.text :: namesAll args
  | .array elements => namesAll elements
  | .index array index => array.names ++ index.names
  | .bool _ | .number _ | .string _ | .blank => []

/-- The names in some expressions. -/
def namesAll : List Expr → List String
  | [] => []
  | e :: rest => e.names ++ namesAll rest

end

/-- The names that a statement declares in its own block. -/
def Stmt.blockNames : Stmt → List String
  | .declare .let_ name _ => [name.text]
  | .function false name _ _ => [name.text]
  | _ => []

/-- The names that some statements declare in their own block. -/
def blockNamesAll : List Stmt → List String
  | [] => []
  | s :: rest => s.blockNames ++ blockNamesAll rest

mutual

/-- The names that a statement declares in the function around it, from any depth
of blocks. -/
def Stmt.varNames : Stmt → List String
  | .declare .var_ name _ => [name.text]
  | .function true name _ _ => [name.text]
  | .branch _ body rest => varNamesAll body ++ rest.varNames
  | .whileLoop _ body => varNamesAll body
  | .countUp _ _ body => varNamesAll body
  | .countTo _ _ _ body => varNamesAll body
  | .forOf _ _ _ body => varNamesAll body
  | _ => []

/-- The names that some statements declare in the function around them. -/
def varNamesAll : List Stmt → List String
  | [] => []
  | s :: rest => s.varNames ++ varNamesAll rest

/-- The names that the rest of a branch declares in the function around it. -/
def Else.varNames : Else → List String
  | .absent => []
  | .body body => varNamesAll body
  | .branch _ body rest => varNamesAll body ++ rest.varNames

end

/-! ## Use behind declaration -/

mutual

/-- Every name in a statement is used where it is known, and behind its
declaration.  The given names are declared before the statement. -/
def Stmt.Bound (known : List String) : Stmt → Prop
  | .log argument => argument.names ⊆ known
  | .declare _ _ initializer => initializer.names ⊆ known
  | .assign target source => target.text ∈ known ∧ source.names ⊆ known
  | .branch test body rest =>
    test.names ⊆ known ∧ BoundAll known body ∧ rest.Bound (known ++ varNamesAll body)
  | .whileLoop test body => test.names ⊆ known ∧ BoundAll known body
  | .countUp counter bound body =>
    bound.names ⊆ known ∧ BoundAll (known ++ [counter.text]) body
  | .countTo counter limit bound body =>
    bound.names ⊆ known ∧ BoundAll (known ++ [counter.text, limit.text]) body
  | .forOf item collection _ body =>
    collection.names ⊆ known ∧ BoundAll (known ++ [item.text]) body
  | .function _ name params body => BoundAll (known ++ name.text :: params.map Name.text) body
  | .call callee args => callee.text ∈ known ∧ namesAll args ⊆ known
  | .ret expression => expression.names ⊆ known
  | .exit | .shortRet => True

/-- Every name in some statements is used where it is known.  What a statement
declares is known behind it. -/
def BoundAll (known : List String) : List Stmt → Prop
  | [] => True
  | s :: rest => s.Bound known ∧ BoundAll (known ++ (s.blockNames ++ s.varNames)) rest

/-- Every name in the rest of a branch is used where it is known. -/
def Else.Bound (known : List String) : Else → Prop
  | .absent => True
  | .body body => BoundAll known body
  | .branch test body rest =>
    test.names ⊆ known ∧ BoundAll known body ∧ rest.Bound (known ++ varNamesAll body)

end

/-! ## Clashes -/

/-- A block does not declare a name twice, and no `var` of a name it declares
crosses it. -/
def Distinct (body : List Stmt) : Prop :=
  (blockNamesAll body).Nodup ∧ ∀ name ∈ blockNamesAll body, name ∉ varNamesAll body

/-- The header of a loop does not declare a name twice, and no `var` of a name it
declares crosses it. -/
def DistinctHeader (header : List Name) (body : List Stmt) : Prop :=
  (header.map Name.text).Nodup ∧ ∀ name ∈ header.map Name.text, name ∉ varNamesAll body

/-- A function does not declare a parameter twice, or again in its body. -/
def DistinctParams (params : List Name) (body : List Stmt) : Prop :=
  (params.map Name.text).Nodup ∧ ∀ name ∈ params.map Name.text, name ∉ blockNamesAll body

mutual

/-- No block, header or list of parameters inside a statement has a clash. -/
def Stmt.Clear : Stmt → Prop
  | .branch _ body rest => Distinct body ∧ ClearAll body ∧ rest.Clear
  | .whileLoop _ body => Distinct body ∧ ClearAll body
  | .countUp counter _ body => DistinctHeader [counter] body ∧ Distinct body ∧ ClearAll body
  | .countTo counter limit _ body =>
    DistinctHeader [counter, limit] body ∧ Distinct body ∧ ClearAll body
  | .forOf item _ _ body => DistinctHeader [item] body ∧ Distinct body ∧ ClearAll body
  | .function _ _ params body => DistinctParams params body ∧ Distinct body ∧ ClearAll body
  | _ => True

/-- No block, header or list of parameters inside some statements has a clash. -/
def ClearAll : List Stmt → Prop
  | [] => True
  | s :: rest => s.Clear ∧ ClearAll rest

/-- No block, header or list of parameters in the rest of a branch has a clash. -/
def Else.Clear : Else → Prop
  | .absent => True
  | .body body => Distinct body ∧ ClearAll body
  | .branch _ body rest => Distinct body ∧ ClearAll body ∧ rest.Clear

end

/-- The names that a program declares in its outermost block, with that of the
helper if it is part of the program. -/
def scriptNames (program : List Stmt) : List String :=
  blockNamesAll program ++ (if anyNeedsHelper program then ["_iter"] else [])

/-- A program whose names are used behind their declarations and do not clash. -/
structure WellBound (program : List Stmt) : Prop where
  bound : BoundAll [] program
  once : (scriptNames program).Nodup
  apart : ∀ name ∈ scriptNames program, name ∉ varNamesAll program
  clear : ClearAll program

/-! ## Statements one after the other -/

@[simp] theorem blockNamesAll_append (ss ts : List Stmt) :
    blockNamesAll (ss ++ ts) = blockNamesAll ss ++ blockNamesAll ts := by
  induction ss with
  | nil => rfl
  | cons s rest ih => simp [blockNamesAll, ih]

@[simp] theorem varNamesAll_append (ss ts : List Stmt) :
    varNamesAll (ss ++ ts) = varNamesAll ss ++ varNamesAll ts := by
  induction ss with
  | nil => rfl
  | cons s rest ih => simp [varNamesAll, ih]

@[simp] theorem clearAll_append (ss ts : List Stmt) :
    ClearAll (ss ++ ts) ↔ ClearAll ss ∧ ClearAll ts := by
  induction ss with
  | nil => simp [ClearAll]
  | cons s rest ih => simp [ClearAll, ih, and_assoc]

theorem append_subset_append_right {names more : List String} (h : names ⊆ more)
    (last : List String) : names ++ last ⊆ more ++ last := by
  intro name hname
  rw [List.mem_append] at hname ⊢
  exact hname.imp_left (@h name)

mutual

/-- More names may be known. -/
theorem Stmt.Bound.mono {known more : List String} (hmore : known ⊆ more) :
    ∀ {s : Stmt}, s.Bound known → s.Bound more
  | .log _, h | .declare _ _ _, h | .ret _, h => List.Subset.trans h hmore
  | .assign _ _, h | .call _ _, h => ⟨hmore h.1, List.Subset.trans h.2 hmore⟩
  | .branch _ _ _, h =>
    ⟨List.Subset.trans h.1 hmore, h.2.1.mono hmore,
      h.2.2.mono (append_subset_append_right hmore _)⟩
  | .whileLoop _ _, h => ⟨List.Subset.trans h.1 hmore, h.2.mono hmore⟩
  | .countUp _ _ _, h | .countTo _ _ _ _, h | .forOf _ _ _ _, h =>
    ⟨List.Subset.trans h.1 hmore, h.2.mono (append_subset_append_right hmore _)⟩
  | .function _ _ _ _, h => BoundAll.mono (append_subset_append_right hmore _) h
  | .exit, _ | .shortRet, _ => trivial

theorem BoundAll.mono {known more : List String} (hmore : known ⊆ more) :
    ∀ {ss : List Stmt}, BoundAll known ss → BoundAll more ss
  | [], _ => trivial
  | _ :: _, h => ⟨h.1.mono hmore, h.2.mono (append_subset_append_right hmore _)⟩

theorem Else.Bound.mono {known more : List String} (hmore : known ⊆ more) :
    ∀ {e : Else}, e.Bound known → e.Bound more
  | .absent, _ => trivial
  | .body _, h => BoundAll.mono hmore h
  | .branch _ _ _, h =>
    ⟨List.Subset.trans h.1 hmore, h.2.1.mono hmore,
      h.2.2.mono (append_subset_append_right hmore _)⟩

end

/-- What some statements declare is known behind them. -/
theorem boundAll_append {known : List String} (ss ts : List Stmt) :
    BoundAll known (ss ++ ts) ↔
      BoundAll known ss ∧ BoundAll (known ++ (blockNamesAll ss ++ varNamesAll ss)) ts := by
  induction ss generalizing known with
  | nil => simp [BoundAll, blockNamesAll, varNamesAll]
  | cons s rest ih =>
    rw [List.cons_append, BoundAll, BoundAll, ih, and_assoc]
    refine and_congr_right fun _ => and_congr_right fun _ => ?_
    have hsame : ∀ name, name ∈ known ++ (s.blockNames ++ s.varNames) ++
        (blockNamesAll rest ++ varNamesAll rest) ↔
          name ∈ known ++ (blockNamesAll (s :: rest) ++ varNamesAll (s :: rest)) := by
      intro name
      simp only [blockNamesAll, varNamesAll, List.mem_append]
      grind
    exact ⟨BoundAll.mono fun name => (hsame name).mp, BoundAll.mono fun name => (hsame name).mpr⟩

end Squishc.Js
