import Squishc.Node.Listing
import Squishc.Proofs.Relabeling

/-!
# Trees of objects

What a listing shows of a typed tree is a tree of objects: each node is an object of
some kind with named fields, and a field holds an atom, an entity, another node or a
list of these.  Listing a node is the same for all kinds, so it is defined once more
here for objects, and the two definitions agree.

Main results:

- Theorem `ofNode_eq`: the listing of a node is that of its tree of objects.
- Theorem `content_relabel`: other entities in a tree are other entities among its
  objects.
- Theorem `part_content`: a legible tree can be put together again from its objects.
-/

namespace Squishc.Listing

/-- A value that holds no other. -/
inductive Atom where
  | nothing
  | unknown
  | truth (b : Bool)
  | number (a : Num)
  | word (s : String)
  | type (t : Ty)

/-- The text of an atom. -/
@[simp] def Atom.text : Atom → String
  | nothing => "None"
  | unknown => "Opaque"
  | truth b => Listing.truth b
  | number a => a.text
  | word s => Text.quoted s
  | type t => t.name

/-- What a field can hold. -/
inductive Content where
  | atom (a : Atom)
  | entity (e : Entity)
  | list (items : List Content)
  /-- A node of the given kind and the contents of its fields. -/
  | node (kind : String) (fields : List Content)

/-! ## Fields -/

/-- What belongs in a place: quoted text, a type, an item of a list, or in a field also
a list of items. -/
inductive Slot where
  | word
  | type
  | item
  | part
deriving DecidableEq

/-- The kinds of objects and their fields, in their order. -/
def schemas : List (String × List (String × Slot)) :=
  [("Variable", [("name", .word), ("type", .type)]),
    ("Function", [("name", .word), ("params", .part)]),
    ("Program", [("statements", .part)]),
    ("PrintStatement", [("argument", .part)]),
    ("VariableDeclaration", [("variable", .part), ("initializer", .part)]),
    ("AssignmentStatement", [("target", .part), ("source", .part)]),
    ("ShortIfStatement", [("test", .part), ("consequence", .part)]),
    ("IfStatement", [("test", .part), ("consequence", .part), ("alternate", .part)]),
    ("WhileStatement", [("test", .part), ("body", .part)]),
    ("ForStatement",
      [("declaration", .part), ("test", .part), ("increment", .part), ("body", .part),
        ("unrolled", .part)]),
    ("LoopStatement", [("iterator", .part), ("collection", .part), ("body", .part)]),
    ("FunctionDeclaration", [("fun", .part), ("body", .part)]),
    ("BreakStatement", []),
    ("ReturnStatement", [("expression", .part)]),
    ("ShortReturnStatement", []),
    ("Call", [("callee", .part), ("args", .part), ("type", .type)]),
    ("BinaryExpression", [("op", .word), ("left", .part), ("right", .part), ("type", .type)]),
    ("Conditional",
      [("consequent", .part), ("test", .part), ("alternate", .part), ("type", .type)]),
    ("StringLiteral", [("chars", .word), ("type", .type)]),
    ("ArrayExpression", [("elements", .part), ("type", .type)]),
    ("ArrayCall", [("array", .part), ("index", .part), ("type", .type)])]

/-- The fields of the objects of a kind. -/
def schema (kind : String) : List (String × Slot) := (schemas.lookup kind).getD []

/-- The names of the fields of a kind. -/
def fieldNames (kind : String) : List String := (schema kind).map Prod.fst

end Squishc.Listing

namespace Squishc

open Listing

/-- The word for the kind of an entity. -/
def Entity.kind : Entity → String
  | var _ => "Variable"
  | function _ => "Function"

/-- The contents of the fields of an entity. -/
def Entity.fields : Entity → List Content
  | var v => [.atom (.word v.name), .atom (.type v.type)]
  | function f => [.atom (.word f.name), .list (f.params.map (fun v => .entity (.var v)))]

namespace Node

mutual

/-- The objects of a tree. -/
@[simp] def content : Node → Content
  | null => .atom .nothing
  | foreign => .atom .unknown
  | bool b => .atom (.truth b)
  | number a => .atom (.number a)
  | var v => .entity (.var v)
  | function f => .entity (.function f)
  | list items => .list (contents items)
  | program statements => .node "Program" [.list (contents statements)]
  | print argument => .node "PrintStatement" [argument.content]
  | declare v initializer =>
    .node "VariableDeclaration" [.entity (.var v), initializer.content]
  | assign target source => .node "AssignmentStatement" [.entity (.var target), source.content]
  | shortIf test consequence =>
    .node "ShortIfStatement" [test.content, .list (contents consequence)]
  | ifElse test consequence alternate =>
    .node "IfStatement" [test.content, .list (contents consequence), alternate.content]
  | whileLoop test body => .node "WhileStatement" [test.content, .list (contents body)]
  | forLoop declaration test increment body unrolled =>
    .node "ForStatement"
      [declaration.content, test.content, increment.content, .list (contents body),
        .atom (.truth unrolled)]
  | forEach iterator collection body =>
    .node "LoopStatement" [.entity (.var iterator), collection.content, .list (contents body)]
  | define f body => .node "FunctionDeclaration" [.entity (.function f), .list (contents body)]
  | exit => .node "BreakStatement" []
  | ret expression => .node "ReturnStatement" [expression.content]
  | shortRet => .node "ShortReturnStatement" []
  | call callee args type =>
    .node "Call" [.entity (.function callee), .list (contents args), .atom (.type type)]
  | unary op operand type =>
    .node "BinaryExpression"
      [.atom (.word op.text), operand.content, .atom .nothing, .atom (.type type)]
  | binary op left right type =>
    .node "BinaryExpression"
      [.atom (.word op.text), left.content, right.content, .atom (.type type)]
  | conditional consequent test alternate type =>
    .node "Conditional" [consequent.content, test.content, alternate.content, .atom (.type type)]
  | string chars type => .node "StringLiteral" [.atom (.word chars), .atom (.type type)]
  | array elements type => .node "ArrayExpression" [.list (contents elements), .atom (.type type)]
  | index a i type => .node "ArrayCall" [a.content, i.content, .atom (.type type)]

/-- The objects of some trees. -/
@[simp] def contents : List Node → List Content
  | [] => []
  | n :: rest => n.content :: contents rest

end

end Node

namespace Listing

/-! ## Listing objects -/

/-- Lists an entity. -/
@[simp] def ofEntity : Entity → State → Listed
  | .var v, s => ofVariable v s
  | .function f, s => ofFunction f s

mutual

/-- Lists a value and everything below it. -/
@[simp] def ofContent : Content → State → Listed
  | .atom a, s => ⟨a.text, [], s⟩
  | .entity e, s => ofEntity e s
  | .list items, s =>
    let (views, lines, after) := ofContents items s
    ⟨bracketed views, lines, after⟩
  | .node kind fields, s =>
    let (views, lines, after) := ofContents fields s.step
    ⟨reference s.next, line s.next kind ((fieldNames kind).zip views) :: lines, after⟩

/-- Lists contents one after another. -/
@[simp] def ofContents : List Content → State → List String × List String × State
  | [], s => ([], [], s)
  | v :: rest, s =>
    let first := ofContent v s
    let (views, lines, after) := ofContents rest first.state
    (first.view :: views, first.lines ++ lines, after)

end

mutual

/-- The listing of a node is that of its objects. -/
theorem ofNode_eq : ∀ (n : Node) (s : State), ofNode n s = ofContent n.content s
  | .null, s | .foreign, s | .bool _, s | .number _, s | .var _, s | .function _, s
  | .exit, s | .shortRet, s | .string _ _, s => rfl
  | .list items, s => by rw [ofNode, ofNodes_eq items, Node.content, ofContent]
  | .program statements, s => by
    simp only [ofNode, ofNodes_eq statements, Node.content, ofContent, ofContents, List.append_nil]
    rfl
  | .print argument, s => by
    simp only [ofNode, ofNode_eq argument, Node.content, ofContent, ofContents, List.append_nil]
    rfl
  | .declare v initializer, s => by
    simp only [ofNode, ofNode_eq initializer, Node.content, ofContent, ofContents, List.append_nil]
    rfl
  | .assign target source, s => by
    simp only [ofNode, ofNode_eq source, Node.content, ofContent, ofContents, List.append_nil]
    rfl
  | .shortIf test consequence, s => by
    simp only [ofNode, ofNode_eq test, ofNodes_eq consequence, Node.content, ofContent, ofContents,
      List.append_nil]
    rfl
  | .ifElse test consequence alternate, s => by
    simp only [ofNode, ofNode_eq test, ofNodes_eq consequence, ofNode_eq alternate, Node.content,
      ofContent, ofContents, List.append_nil, List.append_assoc]
    rfl
  | .whileLoop test body, s => by
    simp only [ofNode, ofNode_eq test, ofNodes_eq body, Node.content, ofContent, ofContents,
      List.append_nil]
    rfl
  | .forLoop declaration test increment body _, s => by
    simp only [ofNode, ofNode_eq declaration, ofNode_eq test, ofNode_eq increment, ofNodes_eq body,
      Node.content, ofContent, ofContents, List.append_nil, List.append_assoc]
    rfl
  | .forEach iterator collection body, s => by
    simp only [ofNode, ofNode_eq collection, ofNodes_eq body, Node.content, ofContent, ofContents,
      List.append_nil, List.append_assoc]
    rfl
  | .define f body, s => by
    simp only [ofNode, ofNodes_eq body, Node.content, ofContent, ofContents, List.append_nil]
    rfl
  | .ret expression, s => by
    simp only [ofNode, ofNode_eq expression, Node.content, ofContent, ofContents, List.append_nil]
    rfl
  | .call callee args _, s => by
    simp only [ofNode, ofNodes_eq args, Node.content, ofContent, ofContents, List.append_nil]
    rfl
  | .unary _ operand _, s => by
    simp only [ofNode, ofNode_eq operand, Node.content, ofContent, ofContents, List.append_nil]
    rfl
  | .binary _ left right _, s => by
    simp only [ofNode, ofNode_eq left, ofNode_eq right, Node.content, ofContent, ofContents,
      List.append_nil]
    rfl
  | .conditional consequent test alternate _, s => by
    simp only [ofNode, ofNode_eq consequent, ofNode_eq test, ofNode_eq alternate, Node.content,
      ofContent, ofContents, List.append_nil, List.append_assoc]
    rfl
  | .array elements _, s => by
    simp only [ofNode, ofNodes_eq elements, Node.content, ofContent, ofContents, List.append_nil]
    rfl
  | .index a i _, s => by
    simp only [ofNode, ofNode_eq a, ofNode_eq i, Node.content, ofContent, ofContents,
      List.append_nil]
    rfl

theorem ofNodes_eq : ∀ (ns : List Node) (s : State), ofNodes ns s = ofContents (Node.contents ns) s
  | [], s => rfl
  | n :: rest, s => by rw [ofNodes, ofNode_eq n, ofNodes_eq rest, Node.contents, ofContents]

end

end Listing

/-! ## Other entities -/

mutual

/-- Content with other entities. -/
@[simp] def Listing.Content.relabel (m : Relabeling) : Content → Content
  | .atom a => .atom a
  | .entity e => .entity (m.entity e)
  | .list items => .list (Content.relabelAll m items)
  | .node kind fields => .node kind (Content.relabelAll m fields)

/-- Contents with other entities. -/
@[simp] def Listing.Content.relabelAll (m : Relabeling) : List Content → List Content
  | [] => []
  | c :: rest => c.relabel m :: Content.relabelAll m rest

end

namespace Node

mutual

/-- The objects of a tree with other entities are the same objects with other
entities. -/
theorem content_relabel (m : Relabeling) : ∀ n : Node, (n.relabel m).content = n.content.relabel m
  | null | foreign | bool _ | number _ | var _ | function _ | exit | shortRet | string _ _ => rfl
  | list items => by simp [-relabelAll_eq_map, contents_relabel m items]
  | program statements => by simp [-relabelAll_eq_map, contents_relabel m statements]
  | print argument => by simp [content_relabel m argument]
  | declare v initializer => by simp [Relabeling.entity, content_relabel m initializer]
  | assign target source => by simp [Relabeling.entity, content_relabel m source]
  | shortIf test consequence => by
    simp [-relabelAll_eq_map, content_relabel m test, contents_relabel m consequence]
  | ifElse test consequence alternate => by
    simp [-relabelAll_eq_map, content_relabel m test, contents_relabel m consequence,
      content_relabel m alternate]
  | whileLoop test body => by
    simp [-relabelAll_eq_map, content_relabel m test, contents_relabel m body]
  | forLoop declaration test increment body _ => by
    simp [-relabelAll_eq_map, content_relabel m declaration, content_relabel m test,
      content_relabel m increment, contents_relabel m body]
  | forEach iterator collection body => by
    simp [-relabelAll_eq_map, Relabeling.entity, content_relabel m collection,
      contents_relabel m body]
  | define f body => by simp [-relabelAll_eq_map, Relabeling.entity, contents_relabel m body]
  | ret expression => by simp [content_relabel m expression]
  | call callee args _ => by
    simp [-relabelAll_eq_map, Relabeling.entity, contents_relabel m args]
  | unary _ operand _ => by simp [content_relabel m operand]
  | binary _ left right _ => by simp [content_relabel m left, content_relabel m right]
  | conditional consequent test alternate _ => by
    simp [content_relabel m consequent, content_relabel m test, content_relabel m alternate]
  | array elements _ => by simp [-relabelAll_eq_map, contents_relabel m elements]
  | index a i _ => by simp [content_relabel m a, content_relabel m i]

theorem contents_relabel (m : Relabeling) : ∀ ns : List Node,
    contents (relabelAll m ns) = Content.relabelAll m (contents ns)
  | [] => rfl
  | n :: rest => by
    rw [relabelAll, contents, contents, Content.relabelAll, content_relabel m n,
      contents_relabel m rest]

end

end Node

/-! ## Putting a tree together again -/

/-- Nothing at all. -/
def Node.isNull : Node → Bool
  | null => true
  | _ => false

namespace Listing

/-- What the content of a field is in a tree. -/
inductive Part where
  | word (s : String)
  | type (t : Ty)
  | node (n : Node)

/-- The node of a part. -/
def Part.node? : Part → Option Node
  | node n => some n
  | word _ | type _ => none

/-- The operation on two operands, of which the right one may be missing. -/
def operation (op : Op) (left right : Node) (type : Ty) : Node :=
  if right.isNull then .unary op left type else .binary op left right type

/-- The node of the given kind with the given parts. -/
def assemble : String → List Part → Node
  | "Program", [.node (.list statements)] => .program statements
  | "PrintStatement", [.node argument] => .print argument
  | "VariableDeclaration", [.node (.var v), .node initializer] => .declare v initializer
  | "AssignmentStatement", [.node (.var target), .node source] => .assign target source
  | "ShortIfStatement", [.node test, .node (.list consequence)] => .shortIf test consequence
  | "IfStatement", [.node test, .node (.list consequence), .node alternate] =>
    .ifElse test consequence alternate
  | "WhileStatement", [.node test, .node (.list body)] => .whileLoop test body
  | "ForStatement",
      [.node declaration, .node test, .node increment, .node (.list body), .node (.bool unrolled)] =>
    .forLoop declaration test increment body unrolled
  | "LoopStatement", [.node (.var iterator), .node collection, .node (.list body)] =>
    .forEach iterator collection body
  | "FunctionDeclaration", [.node (.function f), .node (.list body)] => .define f body
  | "BreakStatement", [] => .exit
  | "ReturnStatement", [.node expression] => .ret expression
  | "ShortReturnStatement", [] => .shortRet
  | "Call", [.node (.function callee), .node (.list args), .type type] => .call callee args type
  | "BinaryExpression", [.word op, .node left, .node right, .type type] =>
    operation (.ofText op) left right type
  | "Conditional", [.node consequent, .node test, .node alternate, .type type] =>
    .conditional consequent test alternate type
  | "StringLiteral", [.word chars, .type type] => .string chars type
  | "ArrayExpression", [.node (.list elements), .type type] => .array elements type
  | "ArrayCall", [.node a, .node i, .type type] => .index a i type
  | _, _ => .null

mutual

/-- What content is in a tree. -/
@[simp] def Content.part : Content → Part
  | .atom .nothing => .node .null
  | .atom .unknown => .node .foreign
  | .atom (.truth b) => .node (.bool b)
  | .atom (.number a) => .node (.number a)
  | .atom (.word s) => .word s
  | .atom (.type t) => .type t
  | .entity (.var v) => .node (.var v)
  | .entity (.function f) => .node (.function f)
  | .list items => .node (.list ((Content.parts items).filterMap Part.node?))
  | .node kind fields => .node (assemble kind (Content.parts fields))

/-- What contents are in a tree. -/
@[simp] def Content.parts : List Content → List Part
  | [] => []
  | c :: rest => c.part :: Content.parts rest

end

end Listing

/-- An operator is canonical if it is the one that its written form names. -/
def Op.canonical (op : Op) : Bool := ofText op.text = op

namespace Node

mutual

/-- Whether the objects of a tree tell it from all others: its operators are canonical,
no operation lacks the second of two operands, and no list holds another. -/
def legible : Node → Bool
  | list items => allLegible items
  | program statements => allLegible statements
  | print argument => argument.legible
  | declare _ initializer => initializer.legible
  | assign _ source => source.legible
  | shortIf test consequence => test.legible && allLegible consequence
  | ifElse test consequence alternate =>
    test.legible && (allLegible consequence && alternate.legible)
  | whileLoop test body => test.legible && allLegible body
  | forLoop declaration test increment body _ =>
    declaration.legible && (test.legible && (increment.legible && allLegible body))
  | forEach _ collection body => collection.legible && allLegible body
  | define _ body => allLegible body
  | ret expression => expression.legible
  | call _ args _ => allLegible args
  | unary op operand _ => op.canonical && operand.legible
  | binary op left right _ =>
    op.canonical && (!right.isNull && (left.legible && right.legible))
  | conditional consequent test alternate _ =>
    consequent.legible && (test.legible && alternate.legible)
  | array elements _ => allLegible elements
  | index a i _ => a.legible && i.legible
  | null | foreign | bool _ | number _ | var _ | function _ | exit | shortRet | string _ _ => true

/-- Whether the objects of some trees tell them from all others. -/
def allLegible : List Node → Bool
  | [] => true
  | n :: rest => !n.isList && (n.legible && allLegible rest)

end

theorem assemble_operation (op : String) (left right : Node) (type : Ty) :
    assemble "BinaryExpression" [.word op, .node left, .node right, .type type] =
      operation (.ofText op) left right type := rfl

theorem filterMap_node? (ns : List Node) : (ns.map Part.node).filterMap Part.node? = ns := by
  induction ns with
  | nil => rfl
  | cons n rest ih => rw [List.map_cons, List.filterMap_cons, Part.node?, ih]

mutual

/-- A legible tree can be put together again from its objects. -/
theorem part_content : ∀ {n : Node}, n.legible = true → n.content.part = .node n
  | null, _ | foreign, _ | bool _, _ | number _, _ | var _, _ | function _, _ | exit, _
  | shortRet, _ | string _ _, _ => rfl
  | list _, h => by rw [content, Content.part, parts_contents h, filterMap_node?]
  | program _, h => by
    simp only [content, Content.part, Content.parts, parts_contents h, filterMap_node?]
    rfl
  | print argument, h => by
    simp only [content, Content.part, Content.parts, part_content (n := argument) h]
    rfl
  | declare _ initializer, h => by
    simp only [content, Content.part, Content.parts, part_content (n := initializer) h]
    rfl
  | assign _ source, h => by
    simp only [content, Content.part, Content.parts, part_content (n := source) h]
    rfl
  | shortIf _ _, h => by
    simp only [legible, Bool.and_eq_true] at h
    simp only [content, Content.part, Content.parts, part_content h.1, parts_contents h.2,
      filterMap_node?]
    rfl
  | ifElse _ _ _, h => by
    simp only [legible, Bool.and_eq_true] at h
    simp only [content, Content.part, Content.parts, part_content h.1, parts_contents h.2.1,
      part_content h.2.2, filterMap_node?]
    rfl
  | whileLoop _ _, h => by
    simp only [legible, Bool.and_eq_true] at h
    simp only [content, Content.part, Content.parts, part_content h.1, parts_contents h.2,
      filterMap_node?]
    rfl
  | forLoop _ _ _ _ _, h => by
    simp only [legible, Bool.and_eq_true] at h
    simp only [content, Content.part, Content.parts, part_content h.1, part_content h.2.1,
      part_content h.2.2.1, parts_contents h.2.2.2, filterMap_node?]
    rfl
  | forEach _ _ _, h => by
    simp only [legible, Bool.and_eq_true] at h
    simp only [content, Content.part, Content.parts, part_content h.1, parts_contents h.2,
      filterMap_node?]
    rfl
  | define _ _, h => by
    simp only [content, Content.part, Content.parts, parts_contents h, filterMap_node?]
    rfl
  | ret expression, h => by
    simp only [content, Content.part, Content.parts, part_content (n := expression) h]
    rfl
  | call _ _ _, h => by
    simp only [content, Content.part, Content.parts, parts_contents h, filterMap_node?]
    rfl
  | conditional _ _ _ _, h => by
    simp only [legible, Bool.and_eq_true] at h
    simp only [content, Content.part, Content.parts, part_content h.1, part_content h.2.1,
      part_content h.2.2]
    rfl
  | array _ _, h => by
    simp only [content, Content.part, Content.parts, parts_contents h, filterMap_node?]
    rfl
  | index _ _ _, h => by
    simp only [legible, Bool.and_eq_true] at h
    simp only [content, Content.part, Content.parts, part_content h.1, part_content h.2]
    rfl
  | unary op _ _, h => by
    simp only [legible, Bool.and_eq_true, Op.canonical, decide_eq_true_eq] at h
    simp only [content, Content.part, Content.parts, part_content h.2]
    rw [assemble_operation, h.1, operation, isNull, if_pos rfl]
  | binary op _ _ _, h => by
    simp only [legible, Bool.and_eq_true, Op.canonical, decide_eq_true_eq] at h
    simp only [content, Content.part, Content.parts, part_content h.2.2.1, part_content h.2.2.2]
    rw [assemble_operation, h.1, operation, if_neg (by simpa using h.2.1)]

theorem parts_contents : ∀ {ns : List Node}, allLegible ns = true →
    Content.parts (contents ns) = ns.map Part.node
  | [], _ => rfl
  | n :: rest, h => by
    simp only [allLegible, Bool.and_eq_true] at h
    rw [contents, Content.parts, part_content h.2.1, parts_contents h.2.2, List.map_cons]

end

theorem isNull_relabel (m : Relabeling) (n : Node) : (n.relabel m).isNull = n.isNull := by
  cases n <;> rfl

theorem isList_relabel (m : Relabeling) (n : Node) : (n.relabel m).isList = n.isList := by
  cases n <;> rfl

mutual

/-- Which entities occur in a tree is nothing to whether its objects tell it. -/
theorem legible_relabel (m : Relabeling) : ∀ n : Node, (n.relabel m).legible = n.legible
  | null | foreign | bool _ | number _ | var _ | function _ | exit | shortRet | string _ _ => rfl
  | list items => allLegible_relabelAll m items
  | program statements => allLegible_relabelAll m statements
  | print argument => legible_relabel m argument
  | declare _ initializer => legible_relabel m initializer
  | assign _ source => legible_relabel m source
  | shortIf test consequence => by
    rw [relabel, legible, legible, legible_relabel m test, allLegible_relabelAll m consequence]
  | ifElse test consequence alternate => by
    rw [relabel, legible, legible, legible_relabel m test, allLegible_relabelAll m consequence,
      legible_relabel m alternate]
  | whileLoop test body => by
    rw [relabel, legible, legible, legible_relabel m test, allLegible_relabelAll m body]
  | forLoop declaration test increment body _ => by
    rw [relabel, legible, legible, legible_relabel m declaration, legible_relabel m test,
      legible_relabel m increment, allLegible_relabelAll m body]
  | forEach _ collection body => by
    rw [relabel, legible, legible, legible_relabel m collection, allLegible_relabelAll m body]
  | define _ body => allLegible_relabelAll m body
  | ret expression => legible_relabel m expression
  | call _ args _ => allLegible_relabelAll m args
  | unary _ operand _ => by rw [relabel, legible, legible, legible_relabel m operand]
  | binary _ left right _ => by
    rw [relabel, legible, legible, legible_relabel m left, legible_relabel m right,
      isNull_relabel m right]
  | conditional consequent test alternate _ => by
    rw [relabel, legible, legible, legible_relabel m consequent, legible_relabel m test,
      legible_relabel m alternate]
  | array elements _ => allLegible_relabelAll m elements
  | index a i _ => by rw [relabel, legible, legible, legible_relabel m a, legible_relabel m i]

theorem allLegible_relabelAll (m : Relabeling) : ∀ ns : List Node,
    allLegible (relabelAll m ns) = allLegible ns
  | [] => rfl
  | n :: rest => by
    rw [relabelAll, allLegible, allLegible, isList_relabel, legible_relabel m n,
      allLegible_relabelAll m rest]

end

/-- Legible trees with the same objects are the same. -/
theorem eq_of_content_eq {s t : Node} (hs : s.legible = true) (ht : t.legible = true)
    (h : s.content = t.content) : s = t := by
  have hparts := part_content hs
  rw [h, part_content ht] at hparts
  exact (Part.node.inj hparts).symm

end Node

end Squishc
