import Cilk.SideEffects.Model

/-!
# Simplifying expressions

`SimplifyNode` of `simplify.c` on expressions: it moves assignments, increments
and `&` into the last operand of a comma, replaces an assignment to a cast by a
cast of an assignment, and replaces `->`. Each rewritten tree is simplified
again.

A type is kept as far as `NodeDataType` looks into it, and of its qualifiers there
is `volatile`; the simplifier does not change the expressions in it. Of the
statements in an expression there are the declarations and the expressions
themselves. The nodes are trees here: where the program uses a subtree again it
copies it, up to one of the uses. A run that would not end has no fuel left, and
neither it nor one that fails an assertion has a result.
-/

namespace Cilk.Simplification

open Cilk.SideEffects (OpType IsAssignmentOp IsIncDecOp)

/-! ## The tree -/

/-- A type. An array and a function have no qualifiers of their own. -/
inductive Ty
  | Prim (volatile : Bool) (basic : String)
  | Tdef (volatile : Bool) (name : String) (type : Ty)
  | Ptr (volatile : Bool) (type : Ty)
  | Adcl (type : Ty)
  | Fdcl (returns : Ty)
  | Sdcl (volatile : Bool) (tag : String)
  | Udcl (volatile : Bool) (tag : String)
  | Edcl (volatile : Bool) (tag : String)
  deriving DecidableEq

mutual

/-- A node of an expression. A comma has at least one operand, the last one. There
is no type where the program has not set one: at the name of a member, and at
an assignment that the simplifier makes. A `Block` is the statement expression
`({ ... })`. -/
inductive Node
  | NULL
  | Type (type : Ty)
  | Const (type : Ty) (value : String)
  | Id (text : String) (type : Option Ty)
  | Binop (op : OpType) (left right : Node) (type : Option Ty)
  | Unary (op : OpType) (expr : Node) (type : Option Ty)
  | Cast (type : Ty) (expr : Node)
  | Comma (before : Nodes) (last : Node)
  | Constructor (type : Ty) (initializerlist : Node)
  | Ternary (cond true_ false_ : Node) (type : Option Ty)
  | Array (name : Node) (dims : Nodes) (type : Option Ty)
  | Call (name : Node) (args : Nodes)
  | Initializer (exprs : Nodes)
  | ImplicitCast (type : Ty) (expr : Node)
  | Block (decl stmts : Nodes) (type : Option Ty)
  | Decl (name : String) (type : Ty) (init : Node)
  | BuiltinVaArg (expr : Node) (type : Ty)

inductive Nodes
  | nil
  | cons (head : Node) (tail : Nodes)

end

/-! ## Types -/

/-- The type behind its names. -/
def Ty.base : Ty → Ty
  | Tdef _ _ type => type.base
  | type => type

/-- What a called object returns: pointers to a function are followed. -/
def Ty.returned : Ty → Option Ty
  | Tdef _ _ type => type.returned
  | Ptr _ type => type.returned
  | Fdcl returns => some returns.base
  | _ => none

/-- `NodeDataType`, which fails where no type is set. At an initializer it is no
type. -/
def NodeDataType : Node → Option Ty
  | .NULL => none
  | .Type type => some type.base
  | .Const type _ => some type.base
  | .Id _ type => type.map Ty.base
  | .Binop _ _ _ type => type.map Ty.base
  | .Unary _ _ type => type.map Ty.base
  | .Cast type _ => some type.base
  | .Comma _ last => NodeDataType last
  | .Constructor type _ => some type.base
  | .Ternary _ _ _ type => type.map Ty.base
  | .Array _ _ type => type.map Ty.base
  | .Call name _ => (NodeDataType name).bind Ty.returned
  | .Initializer _ => none
  | .ImplicitCast type _ => some type.base
  | .Block _ _ type => type.map Ty.base
  | .Decl _ type _ => some type.base
  | .BuiltinVaArg _ type => some type.base

/-! ## The simplifier -/

/-- `OpOfAssignmentOp`, which aborts on what is not such an operator. -/
def OpOfAssignmentOp : OpType → Option OpType
  | .MULTassign => some .mul
  | .DIVassign => some .div
  | .MODassign => some .mod
  | .PLUSassign => some .add
  | .MINUSassign => some .sub
  | .LSassign => some .LS
  | .RSassign => some .RS
  | .ANDassign => some .band
  | .ERassign => some .bxor
  | .ORassign => some .bor
  | _ => none

/-- `MakeConstUint(0)` -/
def zero : Node := .Const (.Prim false "unsigned") "0"

/-- `RemoveSideEffectsNode`: "This is not right, but it is a stub that will do for
now." -/
def RemoveSideEffectsNode (n : Node) : Node := n

/-- What an assignment to a cast becomes: `(T)Y = Z` becomes `(T)(Y = (typeofY)(T)Z)`,
and `(T)Y += Z` becomes `(T)(Y = (typeofY)(T)((T)Y + Z))`. -/
def castAssignment (op : OpType) (T typeofY : Ty) (Y Z : Node) : Option Node :=
  if op = .asgn then
    some (.Cast T (.Binop .asgn Y (.Cast typeofY (.Cast T Z)) none))
  else
    (OpOfAssignmentOp op).map fun op =>
      let Y := RemoveSideEffectsNode Y
      .Cast T (.Binop .asgn Y
        (.Cast typeofY (.Cast T (.Binop op (.Cast T Y) Z (some T)))) (some typeofY))

/-- What `a->b` becomes: `(&a)->b` becomes `a.b`, and otherwise it is `(*a).b` or
`a[0].b`, by the type of `a`. If that is neither a pointer nor an array, a
message is printed and the arrow stays. -/
def removeArrow (left right : Node) (type : Option Ty) : Option Node :=
  (NodeDataType left).map fun ltype =>
    match left, ltype with
    | .Unary .ADDRESS expr _, _ => .Binop .dot expr right type
    | left, .Ptr _ pointee => .Binop .dot (.Unary .INDIR left (some pointee)) right type
    | left, .Adcl element =>
      .Binop .dot (.Array left (.cons zero .nil) (some element)) right type
    | left, _ => .Binop .ARROW left right type

/-- `SimplifyBinop`, after its operands; `again` simplifies a rewritten tree. -/
def SimplifyBinop (again : Node → Option Node) (op : OpType) (left right : Node)
    (type : Option Ty) : Option Node :=
  if IsAssignmentOp op then
    match left with
    | .Comma before last => again (.Comma before (.Binop op last right type))
    | .Cast T Y =>
      (NodeDataType Y).bind fun typeofY => (castAssignment op T typeofY Y right).bind again
    | left => some (.Binop op left right type)
  else if op = .ARROW then removeArrow left right type
  else some (.Binop op left right type)

/-- `SimplifyUnary`, after its operand. -/
def SimplifyUnary (again : Node → Option Node) (op : OpType) (expr : Node) (type : Option Ty) :
    Option Node :=
  if IsIncDecOp op ∨ op = .ADDRESS then
    match expr with
    | .Comma before last => again (.Comma before (.Unary op last type))
    | expr => some (.Unary op expr type)
  else some (.Unary op expr type)

mutual

def SimplifyNode : ℕ → Node → Option Node
  | 0, _ => none
  | _ + 1, .NULL => some .NULL
  | _ + 1, .Type type => some (.Type type)
  | _ + 1, .Const type value => some (.Const type value)
  | _ + 1, .Id text type => some (.Id text type)
  | fuel + 1, .Binop op left right type =>
    (SimplifyNode fuel left).bind fun left =>
    (SimplifyNode fuel right).bind fun right =>
      SimplifyBinop (SimplifyNode fuel) op left right type
  | fuel + 1, .Unary op expr type =>
    (SimplifyNode fuel expr).bind fun expr => SimplifyUnary (SimplifyNode fuel) op expr type
  | fuel + 1, .Cast type expr => (SimplifyNode fuel expr).map (.Cast type)
  | fuel + 1, .Comma before last =>
    (SimplifyList fuel before).bind fun before => (SimplifyNode fuel last).map (.Comma before)
  | fuel + 1, .Constructor type initializerlist =>
    (SimplifyNode fuel initializerlist).map (.Constructor type)
  | fuel + 1, .Ternary cond true_ false_ type =>
    (SimplifyNode fuel cond).bind fun cond =>
    (SimplifyNode fuel true_).bind fun true_ =>
    (SimplifyNode fuel false_).map fun false_ => .Ternary cond true_ false_ type
  | fuel + 1, .Array name dims type =>
    (SimplifyNode fuel name).bind fun name =>
    (SimplifyList fuel dims).map fun dims => .Array name dims type
  | fuel + 1, .Call name args =>
    (SimplifyNode fuel name).bind fun name => (SimplifyList fuel args).map (.Call name)
  | fuel + 1, .Initializer exprs => (SimplifyList fuel exprs).map .Initializer
  | fuel + 1, .ImplicitCast type expr => (SimplifyNode fuel expr).map (.ImplicitCast type)
  | fuel + 1, .Block decl stmts type =>
    (SimplifyList fuel decl).bind fun decl =>
    (SimplifyList fuel stmts).map fun stmts => .Block decl stmts type
  | fuel + 1, .Decl name type init => (SimplifyNode fuel init).map (.Decl name type)
  | fuel + 1, .BuiltinVaArg expr type =>
    (SimplifyNode fuel expr).map fun expr => .BuiltinVaArg expr type

def SimplifyList : ℕ → Nodes → Option Nodes
  | 0, _ => none
  | _ + 1, .nil => some .nil
  | fuel + 1, .cons head tail =>
    (SimplifyNode fuel head).bind fun head => (SimplifyList fuel tail).map (.cons head)

end

/-! ## What the semantic check leaves -/

/-- The nodes that `IsLvalue` accepts, as far as their kind decides it: of the
constructors only those with constants. -/
def IsLvalue : Node → Bool
  | .Id _ type => type.isSome
  | .Unary .INDIR _ _ => true
  | .Array .. => true
  | .Binop .dot left _ _ => IsLvalue left
  | .Binop .ARROW .. => true
  | .Comma _ last => IsLvalue last
  | .Constructor .. => true
  | .Cast _ expr => IsLvalue expr
  | _ => false

mutual

/-- **What the semantic check leaves**: an expression with its types, in which lvalues
stand where the operators need them and arrows start at pointers and arrays. -/
def Node.Checked : Node → Prop
  | .NULL | .Type _ | .Const .. | .Id .. => True
  | .Binop op left right type =>
    left.Checked ∧ right.Checked ∧ type.isSome = true ∧
      (IsAssignmentOp op = true → IsLvalue left = true ∧ type = NodeDataType left) ∧
      (op = .ARROW → ∃ pointee, (∃ volatile, NodeDataType left = some (.Ptr volatile pointee)) ∨
        NodeDataType left = some (.Adcl pointee))
  | .Unary op expr type =>
    expr.Checked ∧ type.isSome = true ∧ (IsIncDecOp op = true → IsLvalue expr = true)
  | .Cast _ expr | .ImplicitCast _ expr | .Constructor _ expr | .Decl _ _ expr
  | .BuiltinVaArg expr _ => expr.Checked
  | .Comma before last => before.Checked ∧ last.Checked
  | .Ternary cond true_ false_ type =>
    cond.Checked ∧ true_.Checked ∧ false_.Checked ∧ type.isSome = true
  | .Array name dims type => name.Checked ∧ dims.Checked ∧ type.isSome = true
  | .Call name args => name.Checked ∧ args.Checked
  | .Initializer exprs => exprs.Checked
  | .Block decl stmts _ => decl.Checked ∧ stmts.Checked

def Nodes.Checked : Nodes → Prop
  | .nil => True
  | .cons head tail => head.Checked ∧ tail.Checked

end

/-! ## What is simple -/

def Node.isComma : Node → Bool
  | .Comma .. => true
  | _ => false

def Node.isCast : Node → Bool
  | .Cast .. => true
  | _ => false

mutual

/-- **A simple expression**: no assignment has a comma or a cast on its left, no
increment and no `&` is of a comma, and there is no arrow. -/
def Node.Simple : Node → Prop
  | .NULL | .Type _ | .Const .. | .Id .. => True
  | .Binop op left right _ =>
    left.Simple ∧ right.Simple ∧ op ≠ .ARROW ∧
      (IsAssignmentOp op = true → left.isComma = false ∧ left.isCast = false)
  | .Unary op expr _ =>
    expr.Simple ∧ (IsIncDecOp op = true ∨ op = .ADDRESS → expr.isComma = false)
  | .Cast _ expr | .ImplicitCast _ expr | .Constructor _ expr | .Decl _ _ expr
  | .BuiltinVaArg expr _ => expr.Simple
  | .Comma before last => before.Simple ∧ last.Simple
  | .Ternary cond true_ false_ _ => cond.Simple ∧ true_.Simple ∧ false_.Simple
  | .Array name dims _ => name.Simple ∧ dims.Simple
  | .Call name args => name.Simple ∧ args.Simple
  | .Initializer exprs => exprs.Simple
  | .Block decl stmts _ => decl.Simple ∧ stmts.Simple

def Nodes.Simple : Nodes → Prop
  | .nil => True
  | .cons head tail => head.Simple ∧ tail.Simple

end

end Cilk.Simplification
