import Cilk.Confluence
import Cilk.DataFlow.Ast

/-!
# The data-flow framework

`dataflow.c`. A value is carried through the tree, in either direction;
`trans` is applied to it at the entry and the exit of every node. Values that
travel along a jump are met in a slot of the node where the jump goes, and
`IterateDataFlow` makes passes until no slot changes, and then the final one.

A client gives the meet and the equality of its values. They make a
semilattice, and the values with `undefined` set are its top. `⊓`, `=` and `⊤`
stand for them here. What `trans` is applied to is logged.
-/

namespace Cilk.DataFlow

open Ast Confluence

/-- Which way the values flow. -/
inductive Direction
  | Backwards | Forwards
  deriving DecidableEq

/-- The two points of a node where a transfer function is applied. -/
inductive Point
  | EntryPoint | ExitPoint
  deriving DecidableEq

/-- The slots of labels, switches and loops. -/
inductive SlotName
  | label_values | switch_values | break_values | loop_values | continue_values
  deriving DecidableEq

/-- A slot: of a node, `return_values` of a procedure being apart. -/
abbrev Slot := (NodeId × SlotName) ⊕ NodeId

variable {V : Type}

/-- The globals of `dataflow.c`, and the slots of the tree. -/
abbrev FlowM (V : Type) := StateM (State (NodeId × Point) Slot V)

/-- `&u->label_values` and the other slots of a node. -/
def slot (n : NodeId) (name : SlotName) : Slot := .inl (n, name)

/-- `&u->return_values` -/
def return_values (n : NodeId) : Slot := .inr n

section

variable (trans : NodeId × Point → V → V)

/-- `Entry(n, v)` -/
def entry (n : NodeId) (v : V) : FlowM V V := apply trans (n, .EntryPoint) v

/-- `Exit(n, v)` -/
def exit (n : NodeId) (v : V) : FlowM V V := apply trans (n, .ExitPoint) v

variable [SemilatticeInf V] [OrderTop V] [DecidableEq V] (dir : Direction) (init : V)

/-- `FlowInto`, at a slot of a node. -/
def FlowInto (dest : Slot) (v : V) : FlowM V V := flowInto dest v

/-! ## The kinds of nodes

A function of `dataflow.c` for a kind of nodes is given the flows through the
children. -/

/-- Entry, the children one after the other, exit: or the other way round. -/
def dataFlowNode (n : NodeId) (children : List (V → FlowM V V)) (v : V) : FlowM V V := do
  match dir with
  | .Forwards => exit trans n (← children.foldlM (fun v f => f v) (← entry trans n v))
  | .Backwards => entry trans n (← children.reverse.foldlM (fun v f => f v) (← exit trans n v))

/-- `DataFlowBranch` -/
def dataFlowBranch (cond t f : V → FlowM V V) (v : V) : FlowM V V := do
  match dir with
  | .Forwards =>
    let c ← cond v
    let t ← t c
    let f ← f c
    return t ⊓ f
  | .Backwards =>
    let t ← t v
    let f ← f v
    cond (t ⊓ f)

/-- A node without parts is passed through. -/
def dataFlowConst (n : NodeId) := dataFlowNode trans dir n []

def dataFlowId (n : NodeId) := dataFlowNode trans dir n []

/-- The right operand of `&&` and `||` may be skipped. -/
def dataFlowBinop (n : NodeId) (op : OpType) (left right : V → FlowM V V) :=
  if op = .ANDAND ∨ op = .OROR then
    dataFlowNode trans dir n [dataFlowBranch dir left right pure]
  else
    dataFlowNode trans dir n [left, right]

/-- The operand of `sizeof` and of `__alignof__` is not walked. -/
def dataFlowUnary (n : NodeId) (op : OpType) (expr : V → FlowM V V) :=
  if op = .SIZEOF ∨ op = .ALIGNOF then
    dataFlowNode trans dir n []
  else
    dataFlowNode trans dir n [expr]

def dataFlowCast (n : NodeId) (expr : V → FlowM V V) := dataFlowNode trans dir n [expr]

def dataFlowComma (n : NodeId) (exprs : V → FlowM V V) := dataFlowNode trans dir n [exprs]

def dataFlowConstructor (n : NodeId) (initializerlist : V → FlowM V V) :=
  dataFlowNode trans dir n [initializerlist]

def dataFlowTernary (n : NodeId) (cond t f : V → FlowM V V) :=
  dataFlowNode trans dir n [dataFlowBranch dir cond t f]

def dataFlowArray (n : NodeId) (name dims : V → FlowM V V) := dataFlowNode trans dir n [name, dims]

def dataFlowCall (n : NodeId) (name args : V → FlowM V V) := dataFlowNode trans dir n [name, args]

def dataFlowInitializer (n : NodeId) (exprs : V → FlowM V V) := dataFlowNode trans dir n [exprs]

def dataFlowImplicitCast (n : NodeId) (expr : V → FlowM V V) := dataFlowNode trans dir n [expr]

/-- The gotos to a label flow together with what falls through to it. -/
def dataFlowLabel (n : NodeId) (v : V) : FlowM V V := do
  match dir with
  | .Forwards => exit trans n (← entry trans n (← FlowInto (slot n .label_values) v))
  | .Backwards => FlowInto (slot n .label_values) (← entry trans n (← exit trans n v))

/-- The expression flows to the cases, and past the statement where there is no
`default`. -/
def dataFlowSwitch (n : NodeId) (has_default : Bool) (expr stmt : V → FlowM V V) (v : V) :
    FlowM V V := do
  match dir with
  | .Forwards =>
    let _ ← FlowInto (slot n .switch_values) (← expr (← entry trans n v))
    if !has_default then
      let _ ← FlowInto (slot n .break_values) (← read (slot n .switch_values))
    -- the expression does not flow to the statement, it is a jump to a case
    let _ ← FlowInto (slot n .break_values) (← stmt ⊤)
    exit trans n (← read (slot n .break_values))
  | .Backwards =>
    let _ ← stmt (← FlowInto (slot n .break_values) (← exit trans n v))
    if !has_default then
      let _ ← FlowInto (slot n .switch_values) (← read (slot n .break_values))
    entry trans n (← expr (← read (slot n .switch_values)))

/-- A case is reached from its switch, and from what stands before it. -/
def dataFlowCase (n : NodeId) (container : Container) (v : V) : FlowM V V := do
  match dir with
  | .Forwards =>
    exit trans n (← entry trans n (v ⊓ (← read (slot container.node .switch_values))))
  | .Backwards =>
    let v ← entry trans n (← exit trans n v)
    let _ ← FlowInto (slot container.node .switch_values) v
    return v

def dataFlowDefault (n : NodeId) (container : Container) (v : V) : FlowM V V := do
  match dir with
  | .Forwards =>
    exit trans n (← entry trans n (v ⊓ (← read (slot container.node .switch_values))))
  | .Backwards =>
    let v ← entry trans n (← exit trans n v)
    let _ ← FlowInto (slot container.node .switch_values) v
    return v

def dataFlowIf (n : NodeId) (expr stmt : V → FlowM V V) :=
  dataFlowNode trans dir n [dataFlowBranch dir expr stmt pure]

def dataFlowIfElse (n : NodeId) (expr t f : V → FlowM V V) :=
  dataFlowNode trans dir n [dataFlowBranch dir expr t f]

/-- The condition is reached from before the loop and from its end. -/
def dataFlowWhile (n : NodeId) (expr stmt : V → FlowM V V) (v : V) : FlowM V V := do
  match dir with
  | .Forwards =>
    let _ ← FlowInto (slot n .loop_values) (← entry trans n v)
    let e ← expr (← read (slot n .loop_values))
    let _ ← FlowInto (slot n .loop_values) (← stmt e)
    let _ ← FlowInto (slot n .break_values) e
    exit trans n (← read (slot n .break_values))
  | .Backwards =>
    let _ ← FlowInto (slot n .break_values) (← exit trans n v)
    let s ← stmt (← read (slot n .loop_values))
    let _ ← FlowInto (slot n .loop_values) (← expr (s ⊓ (← read (slot n .break_values))))
    entry trans n (← read (slot n .loop_values))

/-- The statement is reached from before the loop and from the condition. -/
def dataFlowDo (n : NodeId) (stmt expr : V → FlowM V V) (v : V) : FlowM V V := do
  match dir with
  | .Forwards =>
    let _ ← FlowInto (slot n .loop_values) (← entry trans n v)
    let _ ← FlowInto (slot n .continue_values) (← stmt (← read (slot n .loop_values)))
    let e ← expr (← read (slot n .continue_values))
    let _ ← FlowInto (slot n .loop_values) e
    let _ ← FlowInto (slot n .break_values) e
    exit trans n (← read (slot n .break_values))
  | .Backwards =>
    let _ ← FlowInto (slot n .break_values) (← exit trans n v)
    let e ← expr ((← read (slot n .break_values)) ⊓ (← read (slot n .loop_values)))
    let _ ← FlowInto (slot n .continue_values) e
    let _ ← FlowInto (slot n .loop_values) (← stmt (← read (slot n .continue_values)))
    entry trans n (← read (slot n .loop_values))

/-- `cond` is `none` where the condition is left out, of a definitely infinite
loop. -/
def dataFlowFor (n : NodeId) (init : V → FlowM V V) (cond : Option (V → FlowM V V))
    (next stmt : V → FlowM V V) (v : V) : FlowM V V := do
  match dir, cond with
  | .Forwards, some cond =>
    let _ ← FlowInto (slot n .loop_values) (← init (← entry trans n v))
    let e ← cond (← read (slot n .loop_values))
    let _ ← FlowInto (slot n .break_values) e
    let _ ← FlowInto (slot n .continue_values) (← stmt e)
    let _ ← FlowInto (slot n .loop_values) (← next (← read (slot n .continue_values)))
    exit trans n (← read (slot n .break_values))
  | .Forwards, none =>
    let _ ← FlowInto (slot n .loop_values) (← init (← entry trans n v))
    let e ← read (slot n .loop_values)
    let _ ← FlowInto (slot n .continue_values) (← stmt e)
    let _ ← FlowInto (slot n .loop_values) (← next (← read (slot n .continue_values)))
    exit trans n (← read (slot n .break_values))
  | .Backwards, some cond =>
    let _ ← FlowInto (slot n .break_values) (← exit trans n v)
    let _ ← FlowInto (slot n .continue_values) (← next (← read (slot n .loop_values)))
    let e ← stmt (← read (slot n .continue_values))
    let _ ← FlowInto (slot n .loop_values) (← cond ((← read (slot n .break_values)) ⊓ e))
    entry trans n (← init (← read (slot n .loop_values)))
  | .Backwards, none =>
    let _ ← FlowInto (slot n .break_values) (← exit trans n v)
    let _ ← FlowInto (slot n .continue_values) (← next (← read (slot n .loop_values)))
    let e ← stmt (← read (slot n .continue_values))
    let _ ← FlowInto (slot n .loop_values) e
    entry trans n (← init (← read (slot n .loop_values)))

/-- A jump to where `dest` is; control never continues past it. -/
def dataFlowJump (n : NodeId) (dest : Slot) (v : V) : FlowM V V := do
  match dir with
  | .Forwards =>
    let _ ← FlowInto dest (← exit trans n (← entry trans n v))
    return ⊤
  | .Backwards => entry trans n (← exit trans n (← read dest))

/-- A `goto` flows to its label. -/
def dataFlowGoto (n : NodeId) (label : NodeId) :=
  dataFlowJump trans dir n (slot label .label_values)

/-- `pv` of `DataFlowContinue`; a `Continue` in a `Switch` is unreachable
there, and the parser never makes one. -/
def continueSlot (container : Container) : Slot :=
  match container.typ with
  | .Do => slot container.node .continue_values
  | .While => slot container.node .loop_values
  | .For => slot container.node .continue_values
  | .Switch => slot container.node .loop_values

/-- A `continue` flows to the head of its loop. -/
def dataFlowContinue (n : NodeId) (container : Container) :=
  dataFlowJump trans dir n (continueSlot container)

/-- A `break` flows to what follows its container. -/
def dataFlowBreak (n : NodeId) (container : Container) :=
  dataFlowJump trans dir n (slot container.node .break_values)

/-- A `return` flows to the exit of the procedure. -/
def dataFlowReturn (n : NodeId) (proc : NodeId) (expr : V → FlowM V V) (v : V) : FlowM V V := do
  match dir with
  | .Forwards =>
    let _ ← FlowInto (return_values proc) (← exit trans n (← expr (← entry trans n v)))
    return ⊤
  | .Backwards => entry trans n (← expr (← exit trans n init))

def dataFlowBlock (n : NodeId) (decl stmts : V → FlowM V V) :=
  dataFlowNode trans dir n [decl, stmts]

def dataFlowDecl (n : NodeId) (init : V → FlowM V V) := dataFlowNode trans dir n [init]

/-- A procedure is data-flowed separately, and does nothing where it is
declared. -/
def dataFlowProc (n : NodeId) (body : V → FlowM V V) (v : V) : FlowM V V := do
  match dir with
  | .Forwards =>
    let _ ← exit trans n
      (← FlowInto (return_values n) (← body (← entry trans n init)))
    return v
  | .Backwards =>
    let _ ← entry trans n
      (← FlowInto (return_values n) (← body (← exit trans n init)))
    return v

def dataFlowAsm (n : NodeId) (template output input : V → FlowM V V) :=
  dataFlowNode trans dir n [template, output, input]

def dataFlowAsmArg (n : NodeId) (expr : V → FlowM V V) := dataFlowNode trans dir n [expr]

def dataFlowBuiltinVaArg (n : NodeId) (expr : V → FlowM V V) := dataFlowNode trans dir n [expr]

def dataFlowSpawn (n : NodeId) (receiver name args : V → FlowM V V) :=
  dataFlowNode trans dir n [receiver, name, args]

def dataFlowSync (n : NodeId) := dataFlowNode trans dir n []

def dataFlowInletCall (n : NodeId) (name args : V → FlowM V V) :=
  dataFlowNode trans dir n [name, args]

def dataFlowAbort (n : NodeId) := dataFlowNode trans dir n []

def dataFlowSynched (n : NodeId) := dataFlowNode trans dir n []

def dataFlowXBlock (n : NodeId) (decl stmts : V → FlowM V V) :=
  dataFlowNode trans dir n [decl, stmts]

mutual

/-- **`DataFlow`** -/
def dataFlow : Node → V → FlowM V V
  | .null => pure
  | .Const n _ => dataFlowConst trans dir n
  | .Id n => dataFlowId trans dir n
  | .Binop n op left right => dataFlowBinop trans dir n op (dataFlow left) (dataFlow right)
  | .Unary n op expr => dataFlowUnary trans dir n op (dataFlow expr)
  | .Cast n _ expr => dataFlowCast trans dir n (dataFlow expr)
  | .Comma n exprs => dataFlowComma trans dir n (dataFlowSerialList exprs)
  | .Constructor n _ initializerlist => dataFlowConstructor trans dir n (dataFlow initializerlist)
  | .Ternary n cond t f => dataFlowTernary trans dir n (dataFlow cond) (dataFlow t) (dataFlow f)
  | .Array n name dims => dataFlowArray trans dir n (dataFlow name) (dataFlowSerialList dims)
  | .Call n name args => dataFlowCall trans dir n (dataFlow name) (dataFlowSerialList args)
  | .Initializer n exprs => dataFlowInitializer trans dir n (dataFlowSerialList exprs)
  | .ImplicitCast n expr => dataFlowImplicitCast trans dir n (dataFlow expr)
  | .Label n => dataFlowLabel trans dir n
  | .Switch n expr stmt has_default =>
    dataFlowSwitch trans dir n has_default (dataFlow expr) (dataFlow stmt)
  | .Case n _ container => dataFlowCase trans dir n container
  | .Default n container => dataFlowDefault trans dir n container
  | .If n expr stmt => dataFlowIf trans dir n (dataFlow expr) (dataFlow stmt)
  | .IfElse n expr t f => dataFlowIfElse trans dir n (dataFlow expr) (dataFlow t) (dataFlow f)
  | .While n expr stmt => dataFlowWhile trans dir n (dataFlow expr) (dataFlow stmt)
  | .Do n stmt expr => dataFlowDo trans dir n (dataFlow stmt) (dataFlow expr)
  | .For n init cond next stmt =>
    dataFlowFor trans dir n (dataFlow init) (if cond.isNull then none else some (dataFlow cond))
      (dataFlow next) (dataFlow stmt)
  | .Goto n label => dataFlowGoto trans dir n label
  | .Continue n container => dataFlowContinue trans dir n container
  | .Break n container => dataFlowBreak trans dir n container
  | .Return n expr proc => dataFlowReturn trans dir init n proc (dataFlow expr)
  | .Block n decl stmts =>
    dataFlowBlock trans dir n (dataFlowSerialList decl) (dataFlowSerialList stmts)
  | .Prim _ | .Tdef _ | .Ptr _ _ | .Adcl _ _ _ | .Fdcl _ _ _ | .Sdcl _ _ _ | .Udcl _ _ _
  | .Edcl _ _ _ => pure
  | .Decl n _ init _ => dataFlowDecl trans dir n (dataFlow init)
  | .Attrib _ _ => pure
  | .Proc n _ body => dataFlowProc trans dir init n (dataFlow body)
  | .Text _ => pure
  | .Asm n template output input _ =>
    dataFlowAsm trans dir n (dataFlow template) (dataFlowSerialList output)
      (dataFlowSerialList input)
  | .AsmArg n _ expr => dataFlowAsmArg trans dir n (dataFlow expr)
  | .BuiltinVaArg n expr _ => dataFlowBuiltinVaArg trans dir n (dataFlow expr)
  | .Spawn n receiver name args =>
    dataFlowSpawn trans dir n (dataFlow receiver) (dataFlow name) (dataFlowSerialList args)
  | .Sync n => dataFlowSync trans dir n
  | .InletCall n name args =>
    dataFlowInletCall trans dir n (dataFlow name) (dataFlowSerialList args)
  | .Abort n => dataFlowAbort trans dir n
  | .Synched n => dataFlowSynched trans dir n
  | .XBlock n decl stmts =>
    dataFlowXBlock trans dir n (dataFlowSerialList decl) (dataFlowSerialList stmts)

/-- `DataFlowSerialList` -/
def dataFlowSerialList : List Node → V → FlowM V V
  | [], v => pure v
  | n :: ns, v => do
    match dir with
    | .Forwards => dataFlowSerialList ns (← dataFlow n v)
    | .Backwards => dataFlow n (← dataFlowSerialList ns v)

end

/-! ## Iteration -/

/-- The slots of a node. -/
def confluencePoints : Node → List Slot
  | .Label n => [slot n .label_values]
  | .Switch n _ _ _ => [slot n .switch_values, slot n .break_values]
  | .While n _ _ => [slot n .loop_values, slot n .break_values]
  | .Do n _ _ | .For n _ _ _ _ =>
    [slot n .loop_values, slot n .continue_values, slot n .break_values]
  | .Proc n _ _ => [return_values n]
  | _ => []

/-- `InitConfluencePoints` -/
def initConfluencePoints (s : State (NodeId × Point) Slot V) (node : Node) :
    State (NodeId × Point) Slot V :=
  match confluencePoints node with
  | [] => s
  | dests =>
    { s with slots := fun k => if dests.any (· = k) then ⊤ else s.slots k, changed := true }

/-- **`IterateDataFlow`**: the state after the final pass, with the log of this
pass, if `fuel` is enough for the passes before it. -/
def iterateDataFlow (fuel : ℕ) (root : Node) (s : State (NodeId × Point) Slot V) :
    Option (State (NodeId × Point) Slot V) := do
  let s := root.walkTree.foldl initConfluencePoints { s with changed := false }
  let s ← iterate (dataFlow trans dir init root init) fuel s
  return (dataFlow trans dir init root init { s with applied := [] }).2

end

end Cilk.DataFlow
