import Mathlib.Data.List.Basic

/-!
# Looking for side effects

`SideeffectsNode` of `sideeffects.c`, with its functions for the kinds of nodes,
and `CheckSideEffectFree` of `transform.c`, which walks over a tree with
`ASTWALK` and clears `side_effect_free`.

A node of the tree is kept with the children that one of the two looks at.
There is no result where the run ends in an `abort`, a failed assertion or a
`FAIL`.
-/

namespace Cilk.SideEffects

/-! ## The tree -/

/-- The operators, by their names in the table of the operators. -/
inductive OpType
  -- assignments
  | asgn | MULTassign | DIVassign | MODassign | PLUSassign | MINUSassign | LSassign | RSassign
  | ANDassign | ERassign | ORassign
  -- operators of one operand
  | POSTINC | PREINC | POSTDEC | PREDEC | SIZEOF | ALIGNOF | IMAG | REAL | ADDRESS | INDIR | UPLUS
  | UMINUS | bitnot | not
  -- members and designators
  | dot | ARROW | colon | DESIGNATED_INITIALIZER | ARRAY_LABELED_INITIALIZER | ELLIPSIS
  -- operators of two operands
  | add | sub | mul | div | mod | LS | RS | lt | gt | LE | GE | EQ | NE | band | bxor | bor
  | ANDAND | OROR
  deriving DecidableEq

def IsAssignmentOp : OpType → Bool
  | .asgn | .MULTassign | .DIVassign | .MODassign | .PLUSassign | .MINUSassign | .LSassign
  | .RSassign | .ANDassign | .ERassign | .ORassign => true
  | _ => false

def IsIncDecOp : OpType → Bool
  | .PREINC | .PREDEC | .POSTINC | .POSTDEC => true
  | _ => false

mutual

/-- A node of the tree. The clobbered registers of an `Asm` are strings. -/
inductive Node
  | NULL
  | Const (type : Node)
  | Id (name : String)
  | Binop (op : OpType) (left right : Node)
  | Unary (op : OpType) (expr : Node)
  | Cast (type expr : Node)
  | Constructor (type initializerlist : Node)
  | Comma (exprs : Nodes)
  | Ternary (cond true_ false_ : Node)
  | Array (name : Node) (dims : Nodes)
  | Call (name : Node) (args : Nodes)
  | Initializer (exprs : Nodes)
  | ImplicitCast (expr : Node)
  -- statements
  | Label
  | Switch (expr stmt : Node)
  | Case (expr : Node)
  | Default
  | If (expr stmt : Node)
  | IfElse (expr true_ false_ : Node)
  | While (expr stmt : Node)
  | Do (stmt expr : Node)
  | For (init cond next stmt : Node)
  | Goto
  | Continue
  | Break
  | Return (expr : Node)
  | Block (decl stmts : Nodes)
  | XBlock (decl stmts : Nodes)
  -- types and declarations
  | Prim
  | Tdef
  | Ptr (type : Node)
  | Adcl
  | Fdcl
  | Sdcl
  | Udcl
  | Edcl
  | Decl (init : Node)
  | Attrib
  | Proc
  | Text
  -- extensions
  | Asm (output input : Nodes) (clobbered : List String)
  | AsmArg (expr : Node)
  | BuiltinVaArg (expr type : Node)
  | Spawn (receiver name : Node) (args : Nodes)
  | Sync
  | InletCall (name : Node) (args : Nodes)
  | Abort
  | Synched

inductive Nodes
  | nil
  | cons (head : Node) (tail : Nodes)

end

def Nodes.isNil : Nodes → Bool
  | nil => true
  | cons .. => false

/-! ## `sideeffects.c` -/

/-- `||` -/
def orElse (a b : Option Bool) : Option Bool := a.bind fun x => if x then some true else b

mutual

/-- `SideeffectsNode`, by the function for each kind of node. -/
def SideeffectsNode : Node → Option Bool
  | .NULL => some false
  | .Id _ | .Label | .Goto | .Default | .Continue | .Break | .Prim | .Sync | .Abort | .Synched
  | .Attrib | .Text | .Const _ | .Tdef | .Ptr _ | .Adcl | .Fdcl | .Sdcl | .Udcl | .Edcl
  | .Proc => some false
  -- `SideeffectsUnary`
  | .Unary op expr =>
    if IsIncDecOp op then some true
    else match op with
      | .SIZEOF => some false
      | .ALIGNOF => some false
      | _ => SideeffectsNode expr
  -- `SideeffectsBinop`
  | .Binop op left right =>
    if IsAssignmentOp op then some true
    else match op with
      | .colon | .DESIGNATED_INITIALIZER => SideeffectsNode right
      | .dot | .ARROW => SideeffectsNode left
      | .add | .sub | .mul | .div | .mod | .LS | .RS | .lt | .gt | .LE | .GE | .EQ | .NE | .band
      | .bxor | .bor | .ANDAND | .OROR => orElse (SideeffectsNode left) (SideeffectsNode right)
      | _ => none
  | .Cast _ expr => SideeffectsNode expr
  | .Comma exprs => SideeffectsList exprs
  | .Constructor _ initializerlist => SideeffectsNode initializerlist
  | .Ternary cond true_ false_ =>
    orElse (SideeffectsNode cond) (orElse (SideeffectsNode true_) (SideeffectsNode false_))
  | .Array name dims => orElse (SideeffectsNode name) (SideeffectsList dims)
  | .Call _ _ => some true
  | .Initializer exprs => SideeffectsList exprs
  | .ImplicitCast expr => SideeffectsNode expr
  | .Switch expr stmt => orElse (SideeffectsNode expr) (SideeffectsNode stmt)
  -- the assertion of `SideeffectsCase`
  | .Case expr => (SideeffectsNode expr).bind fun x => if x then none else some false
  | .If expr stmt => orElse (SideeffectsNode expr) (SideeffectsNode stmt)
  | .IfElse expr true_ false_ =>
    orElse (SideeffectsNode expr) (orElse (SideeffectsNode true_) (SideeffectsNode false_))
  | .While expr stmt => orElse (SideeffectsNode expr) (SideeffectsNode stmt)
  | .Do stmt expr => orElse (SideeffectsNode stmt) (SideeffectsNode expr)
  | .For init cond next stmt =>
    orElse (SideeffectsNode init) (orElse (SideeffectsNode cond)
      (orElse (SideeffectsNode next) (SideeffectsNode stmt)))
  | .Return expr => SideeffectsNode expr
  | .Block decl stmts => orElse (SideeffectsList decl) (SideeffectsList stmts)
  | .Asm output input _ => if ¬ output.isNil then some true else SideeffectsList input
  | .AsmArg expr => SideeffectsNode expr
  | .BuiltinVaArg expr _ => SideeffectsNode expr
  | .Spawn _ _ _ => some true
  | .InletCall _ _ => some true
  | .XBlock decl stmts => orElse (SideeffectsList decl) (SideeffectsList stmts)
  | .Decl init => SideeffectsNode init

/-- `SideeffectsList`. -/
def SideeffectsList : Nodes → Option Bool
  | .nil => some false
  | .cons head tail => orElse (SideeffectsNode head) (SideeffectsList tail)

end

/-! ## `CheckSideEffectFree` -/

/-- One walk after the other: whether both leave `side_effect_free` set. -/
def andThen (a b : Option Bool) : Option Bool := a.bind fun x => b.map fun y => x && y

mutual

/-- `CheckSideEffectFree`: whether it leaves `side_effect_free` set. `ASTWALK`
walks over the children that are there. -/
def CheckSideEffectFree : Node → Option Bool
  | .NULL => some true
  | .Binop op left right =>
    if IsAssignmentOp op then some false
    else andThen (CheckSideEffectFree left) (CheckSideEffectFree right)
  | .Unary op expr => if IsIncDecOp op then some false else CheckSideEffectFree expr
  | .Block .. | .Call .. | .Spawn .. => some false
  -- `FAIL("Statement in spawn arg")`
  | .Label | .Switch .. | .Case _ | .Default | .If .. | .IfElse .. | .While .. | .Do .. | .For ..
  | .Goto | .Continue | .Break | .Return _ | .Sync => none
  | .Prim | .Tdef | .Adcl | .Fdcl | .Sdcl | .Udcl | .Edcl | .Decl _ | .Attrib | .Proc => some true
  -- `ASTWALK`
  | .Const type => CheckSideEffectFree type
  | .Id _ | .Abort | .Synched | .Text => some true
  | .Cast type expr => andThen (CheckSideEffectFree type) (CheckSideEffectFree expr)
  | .Constructor type initializerlist =>
    andThen (CheckSideEffectFree type) (CheckSideEffectFree initializerlist)
  | .Comma exprs => CheckList exprs
  | .Ternary cond true_ false_ =>
    andThen (CheckSideEffectFree cond)
      (andThen (CheckSideEffectFree true_) (CheckSideEffectFree false_))
  | .Array name dims => andThen (CheckSideEffectFree name) (CheckList dims)
  | .Initializer exprs => CheckList exprs
  | .ImplicitCast expr => CheckSideEffectFree expr
  | .Ptr type => CheckSideEffectFree type
  | .Asm output input _ => andThen (CheckList output) (CheckList input)
  | .AsmArg expr => CheckSideEffectFree expr
  | .BuiltinVaArg expr type => andThen (CheckSideEffectFree expr) (CheckSideEffectFree type)
  | .InletCall name args => andThen (CheckSideEffectFree name) (CheckList args)
  | .XBlock decl stmts => andThen (CheckList decl) (CheckList stmts)

/-- `LISTWALK`. -/
def CheckList : Nodes → Option Bool
  | .nil => some true
  | .cons head tail => andThen (CheckSideEffectFree head) (CheckList tail)

end

/-! ## What the grammar produces -/

/-- What a node stands for: in a list of initializers a designator may come before
one, and the operand of `sizeof` may be a type. -/
inductive Category
  | expr | optExpr | operand | initializer | optInitializer | basicInitializer | braces | designator
  | typename | stmt | decl | asmArg
  deriving DecidableEq

/-- An expression may stand there. -/
def Category.takesExpr : Category → Bool
  | expr | optExpr | operand | initializer | optInitializer | basicInitializer | designator
  | stmt => true
  | _ => false

/-- An initializer in braces may. -/
def Category.takesBraces : Category → Bool
  | initializer | optInitializer | basicInitializer | braces => true
  | _ => false

/-- An initializer with a designator may. -/
def Category.takesDesignator : Category → Bool
  | initializer | optInitializer => true
  | _ => false

/-- Nothing may. -/
def Category.takesNothing : Category → Bool
  | optExpr | optInitializer | stmt => true
  | _ => false

def Category.takesType : Category → Bool
  | typename | operand | decl => true
  | _ => false

/-- The operators of one operand. -/
def OpType.isUnary : OpType → Bool
  | POSTINC | PREINC | POSTDEC | PREDEC | SIZEOF | ALIGNOF | IMAG | REAL | ADDRESS | INDIR | UPLUS
  | UMINUS | bitnot | not => true
  | _ => false

def Node.isId : Node → Bool
  | Id _ => true
  | _ => false

mutual

/-- **What the grammar produces**, and what the checks insert in it. -/
def Node.Is : Node → Category → Prop
  | .NULL, cat => cat.takesNothing = true
  | .Const type, cat => cat.takesExpr = true ∧ type.Is .typename
  | .Id _, cat | .Synched, cat => cat.takesExpr = true
  | .Binop op left right, cat =>
    match op with
    | .colon | .DESIGNATED_INITIALIZER =>
      cat.takesDesignator = true ∧ left.isId = true ∧ right.Is .basicInitializer
    | .ARRAY_LABELED_INITIALIZER =>
      cat.takesDesignator = true ∧ left.Is .designator ∧ right.Is .basicInitializer
    | .ELLIPSIS => cat = .designator ∧ left.Is .expr ∧ right.Is .expr
    | .dot | .ARROW => cat.takesExpr = true ∧ left.Is .expr ∧ right.isId = true
    | op => op.isUnary = false ∧ cat.takesExpr = true ∧ left.Is .expr ∧ right.Is .expr
  | .Unary op expr, cat =>
    match op with
    | .SIZEOF | .ALIGNOF => cat.takesExpr = true ∧ expr.Is .operand
    | op => op.isUnary = true ∧ cat.takesExpr = true ∧ expr.Is .expr
  | .Cast type expr, cat => cat.takesExpr = true ∧ type.Is .typename ∧ expr.Is .expr
  | .Constructor type initializerlist, cat =>
    cat.takesExpr = true ∧ type.Is .typename ∧ initializerlist.Is .braces
  | .Comma exprs, cat => cat.takesExpr = true ∧ exprs.All .expr
  | .Ternary cond true_ false_, cat =>
    cat.takesExpr = true ∧ cond.Is .expr ∧ true_.Is .optExpr ∧ false_.Is .expr
  | .Array name dims, cat => cat.takesExpr = true ∧ name.Is .expr ∧ dims.All .expr
  | .Call name args, cat => cat.takesExpr = true ∧ name.Is .expr ∧ args.All .expr
  | .Initializer exprs, cat => cat.takesBraces = true ∧ exprs.All .initializer
  | .ImplicitCast expr, cat => cat.takesExpr = true ∧ expr.Is .expr
  | .BuiltinVaArg expr type, cat => cat.takesExpr = true ∧ expr.Is .expr ∧ type.Is .typename
  | .Block decl stmts, cat => cat.takesExpr = true ∧ decl.All .decl ∧ stmts.All .stmt
  | .Label, cat | .Default, cat | .Goto, cat | .Continue, cat | .Break, cat | .Sync, cat
  | .Abort, cat => cat = .stmt
  | .Switch expr stmt, cat | .If expr stmt, cat | .While expr stmt, cat =>
    cat = .stmt ∧ expr.Is .expr ∧ stmt.Is .stmt
  | .Case expr, cat => cat = .stmt ∧ expr.Is .expr
  | .IfElse expr true_ false_, cat =>
    cat = .stmt ∧ expr.Is .expr ∧ true_.Is .stmt ∧ false_.Is .stmt
  | .Do stmt expr, cat => cat = .stmt ∧ stmt.Is .stmt ∧ expr.Is .expr
  | .For init cond next stmt, cat =>
    cat = .stmt ∧ init.Is .optExpr ∧ cond.Is .optExpr ∧ next.Is .optExpr ∧ stmt.Is .stmt
  | .Return expr, cat => cat = .stmt ∧ expr.Is .optExpr
  | .XBlock decl stmts, cat => cat = .stmt ∧ decl.All .decl ∧ stmts.All .stmt
  | .Asm output input _, cat => cat = .stmt ∧ output.All .asmArg ∧ input.All .asmArg
  | .AsmArg expr, cat => cat = .asmArg ∧ expr.Is .expr
  | .Spawn receiver name args, cat =>
    cat = .stmt ∧ receiver.Is .optExpr ∧ name.Is .expr ∧ args.All .expr
  | .InletCall name (.cons (.Spawn .NULL proc args) rest), cat =>
    cat = .stmt ∧ name.Is .expr ∧ proc.Is .expr ∧ args.All .expr ∧ rest.All .expr
  | .InletCall .., _ => False
  | .Prim, cat | .Tdef, cat | .Adcl, cat | .Fdcl, cat | .Sdcl, cat | .Udcl, cat | .Edcl, cat =>
    cat.takesType = true
  | .Ptr type, cat => cat.takesType = true ∧ type.Is .typename
  | .Decl init, cat => cat = .decl ∧ init.Is .optInitializer
  | .Proc, cat => cat = .decl
  -- the text of a `#pragma`
  | .Text, cat => cat = .stmt ∨ cat = .decl
  | .Attrib, _ => False

def Nodes.All : Nodes → Category → Prop
  | .nil, _ => True
  | .cons head tail, cat => head.Is cat ∧ tail.All cat

end

end Cilk.SideEffects
