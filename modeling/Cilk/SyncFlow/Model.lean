import Cilk.DataFlow.Model
import Mathlib.Data.Finset.Basic

/-!
# The return and sync analyses

`AnalyzeReturnFlow` and `AnalyzeSyncFlow` of `analyze.c`, which go over the
tree of a procedure one after the other, with the values as they are in
memory: a flow value that is marked undefined keeps the bits it had, and the
slots keep the bits of earlier analyses. `DataFlow.dataFlow` knows only one
undefined value; the functions of `dataflow.c` are therefore written again for
these values, in the direction `Forwards` that both analyses have.
-/

namespace Cilk.SyncFlow

open Ast
open DataFlow (Point Slot SlotName slot return_values confluencePoints continueSlot)

/-! ## Flow values -/

/-- `BitVector`, an `unsigned long`, as the set of its bits. -/
abbrev BitVector := Finset (Fin 64)

structure FlowValue where
  undefined : Bool
  bitvector : BitVector
  deriving DecidableEq

def EmptySet : FlowValue := ⟨false, ∅⟩

def SetBit (v : FlowValue) (bitnum : Fin 64) : FlowValue :=
  { v with bitvector := insert bitnum v.bitvector }

def ClearBit (v : FlowValue) (bitnum : Fin 64) : FlowValue :=
  { v with bitvector := v.bitvector.erase bitnum }

/-- Of an undefined value, too: the macro reads the bits that are there. -/
def IsBitSet (v : FlowValue) (bitnum : Fin 64) : Bool := bitnum ∈ v.bitvector

def SetUnion (v₁ v₂ : FlowValue) : FlowValue :=
  if v₁.undefined then v₂
  else if v₂.undefined then v₁
  else ⟨false, v₁.bitvector ∪ v₂.bitvector⟩

def SetEqual (v₁ v₂ : FlowValue) : Bool :=
  if v₁.undefined then v₂.undefined
  else !v₂.undefined && v₁.bitvector = v₂.bitvector

/-- `v.undefined = TRUE` -/
def makeUndefined (v : FlowValue) : FlowValue := { v with undefined := true }

/-! ## The transfer functions -/

/-- What a transfer function does to the tree, or reports, on the final pass. -/
inductive Decision
  | warning (text : String) (n : NodeId)
  /-- `node->u.proc.needs_return = TRUE` -/
  | needs_return (n : NodeId)
  /-- `node->u.Return.needs_sync = TRUE` -/
  | return_needs_sync (n : NodeId)
  /-- `node->u.proc.needs_sync = TRUE`, right after the assertion that
  `needs_return` is set. -/
  | procedure_needs_sync (n : NodeId)
  deriving DecidableEq, Repr

abbrev TransOp := Node → FlowValue → Point → Bool → FlowValue × List Decision

/-- What `TransRF` asks of the declaration of a procedure. -/
structure Signature where
  returnsVoid : Bool
  returnsSint : Bool
  has_procedure : Bool
  has_inlet : Bool
  deriving DecidableEq, Repr

def REACHABLE : Fin 64 := 0
def VALUE_RETURNED : Fin 64 := 1
def NOTHING_RETURNED : Fin 64 := 2

/-- `IsExpr(node) && node->typ != Block` -/
def isExprNotBlock : Node → Bool
  | .Const _ _ | .Id _ | .Binop _ _ _ _ | .Unary _ _ _ | .Cast _ _ _ | .Comma _ _
  | .Constructor _ _ _ | .Ternary _ _ _ _ | .Array _ _ _ | .Call _ _ _ | .Initializer _ _
  | .ImplicitCast _ _ | .AsmArg _ _ _ | .BuiltinVaArg _ _ _ | .Synched _ => true
  | _ => false

/-- Whether control that falls off the end is returned for, or warned about. -/
def Signature.returns (d : Signature) : Bool :=
  d.returnsVoid || !d.returnsSint || d.has_procedure || d.has_inlet

/-- The exit of a procedure, on the final pass. -/
def decideReturn (d : Signature) (n : NodeId) (v : FlowValue) : List Decision :=
  (if !d.returnsVoid && (!d.returnsSint || d.has_procedure || d.has_inlet) &&
      IsBitSet v REACHABLE then
    [.warning "control reaches end of non-void function" n, .needs_return n]
  else if IsBitSet v VALUE_RETURNED && (IsBitSet v NOTHING_RETURNED || IsBitSet v REACHABLE) then
    [.warning "function returns both with and without a value" n]
  else []) ++
  (if d.returnsVoid && IsBitSet v REACHABLE then [.needs_return n] else [])

def TransRF (signature : NodeId → Signature) (node : Node) (v : FlowValue) (p : Point)
    (final : Bool) : FlowValue × List Decision :=
  match p with
  | .EntryPoint =>
    if v.undefined && isExprNotBlock node then
      (EmptySet, if final then [.warning "unreachable code" node.id] else [])
    else (v, [])
  | .ExitPoint =>
    match node with
    | .Return _ expr _ =>
      let v := ClearBit v REACHABLE
      (if expr.isNull then SetBit v NOTHING_RETURNED else SetBit v VALUE_RETURNED, [])
    | .Proc n _ _ => (v, if final then decideReturn (signature n) n v else [])
    | _ => (v, [])

def CHILDREN_OUTSTANDING : Fin 64 := 1

/-- `Gen(node)`, as `InitSF` sets it. -/
def Gen : Node → BitVector
  | .Spawn _ _ _ _ | .InletCall _ _ _ => {CHILDREN_OUTSTANDING}
  | _ => ∅

/-- `Kill(node)`, as `InitSF` sets it. -/
def Kill : Node → BitVector
  | .Sync _ | .Return _ _ _ => {CHILDREN_OUTSTANDING}
  | _ => ∅

def GenKill (node : Node) (v : FlowValue) : FlowValue :=
  let v := if v.undefined then EmptySet else v
  { v with bitvector := (v.bitvector \ Kill node) ∪ Gen node }

/-- What `TransSF` does at an exit on the final pass. -/
def decideSync : Node → FlowValue → List Decision
  | .Return n _ _, v => if IsBitSet v CHILDREN_OUTSTANDING then [.return_needs_sync n] else []
  | .Proc n _ _, v => if IsBitSet v CHILDREN_OUTSTANDING then [.procedure_needs_sync n] else []
  | _, _ => []

def TransSF (node : Node) (v : FlowValue) (p : Point) (final : Bool) :
    FlowValue × List Decision :=
  match p with
  | .EntryPoint => (v, [])
  | .ExitPoint => (GenKill node v, if final then decideSync node v else [])

/-! ## The framework -/

/-- The slots of the tree, and what `trans` has been applied to. -/
structure State where
  slots : Slot → FlowValue
  changed : Bool
  applied : List ((Node × Point) × FlowValue)

abbrev FlowM := StateM State

section

variable (trans : TransOp) (final : Bool) (init : FlowValue)

def apply (node : Node) (p : Point) (v : FlowValue) : FlowM FlowValue := do
  modify fun s => { s with applied := s.applied ++ [((node, p), v)] }
  return (trans node v p final).1

/-- `Entry(n, v)` -/
def entry (node : Node) (v : FlowValue) : FlowM FlowValue := apply trans final node .EntryPoint v

/-- `Exit(n, v)` -/
def exit (node : Node) (v : FlowValue) : FlowM FlowValue := apply trans final node .ExitPoint v

def FlowInto (dest : Slot) (v : FlowValue) : FlowM FlowValue := do
  let s ← get
  let new := SetUnion (s.slots dest) v
  if !SetEqual (s.slots dest) new then
    set { s with slots := Function.update s.slots dest new, changed := true }
  return new

def read (dest : Slot) : FlowM FlowValue := do
  return (← get).slots dest

/-- Entry, the children one after the other, exit. -/
def dataFlowNode (node : Node) (children : List (FlowValue → FlowM FlowValue)) (v : FlowValue) :
    FlowM FlowValue := do
  exit trans final node (← children.foldlM (fun v f => f v) (← entry trans final node v))

def dataFlowBranch (cond t f : FlowValue → FlowM FlowValue) (v : FlowValue) :
    FlowM FlowValue := do
  let c ← cond v
  let t ← t c
  let f ← f c
  return SetUnion t f

def dataFlowLabel (node : Node) (n : NodeId) (v : FlowValue) : FlowM FlowValue := do
  exit trans final node (← entry trans final node (← FlowInto (slot n .label_values) v))

def dataFlowSwitch (node : Node) (n : NodeId) (has_default : Bool)
    (expr stmt : FlowValue → FlowM FlowValue) (v : FlowValue) : FlowM FlowValue := do
  let _ ← FlowInto (slot n .switch_values) (← expr (← entry trans final node v))
  if !has_default then
    let _ ← FlowInto (slot n .break_values) (← read (slot n .switch_values))
  let _ ← FlowInto (slot n .break_values) (← stmt (makeUndefined v))
  exit trans final node (← read (slot n .break_values))

/-- `DataFlowCase` and `DataFlowDefault`. -/
def dataFlowCase (node : Node) (container : Container) (v : FlowValue) : FlowM FlowValue := do
  exit trans final node (← entry trans final node
    (SetUnion v (← read (slot container.node .switch_values))))

def dataFlowWhile (node : Node) (n : NodeId) (expr stmt : FlowValue → FlowM FlowValue)
    (v : FlowValue) : FlowM FlowValue := do
  let _ ← FlowInto (slot n .loop_values) (← entry trans final node v)
  let e ← expr (← read (slot n .loop_values))
  let _ ← FlowInto (slot n .loop_values) (← stmt e)
  let _ ← FlowInto (slot n .break_values) e
  exit trans final node (← read (slot n .break_values))

def dataFlowDo (node : Node) (n : NodeId) (stmt expr : FlowValue → FlowM FlowValue)
    (v : FlowValue) : FlowM FlowValue := do
  let _ ← FlowInto (slot n .loop_values) (← entry trans final node v)
  let _ ← FlowInto (slot n .continue_values) (← stmt (← read (slot n .loop_values)))
  let e ← expr (← read (slot n .continue_values))
  let _ ← FlowInto (slot n .loop_values) e
  let _ ← FlowInto (slot n .break_values) e
  exit trans final node (← read (slot n .break_values))

/-- `cond` is `none` where the condition is left out, of a definitely infinite
loop. -/
def dataFlowFor (node : Node) (n : NodeId) (init : FlowValue → FlowM FlowValue)
    (cond : Option (FlowValue → FlowM FlowValue)) (next stmt : FlowValue → FlowM FlowValue)
    (v : FlowValue) : FlowM FlowValue := do
  let _ ← FlowInto (slot n .loop_values) (← init (← entry trans final node v))
  match cond with
  | some cond =>
    let e ← cond (← read (slot n .loop_values))
    let _ ← FlowInto (slot n .break_values) e
    let _ ← FlowInto (slot n .continue_values) (← stmt e)
    let _ ← FlowInto (slot n .loop_values) (← next (← read (slot n .continue_values)))
    exit trans final node (← read (slot n .break_values))
  | none =>
    let e ← read (slot n .loop_values)
    let _ ← FlowInto (slot n .continue_values) (← stmt e)
    let _ ← FlowInto (slot n .loop_values) (← next (← read (slot n .continue_values)))
    exit trans final node (← read (slot n .break_values))

/-- `DataFlowGoto`, `DataFlowContinue` and `DataFlowBreak`: what is given back
has the bits that came, under the undefined flag. -/
def dataFlowJump (node : Node) (dest : Slot) (v : FlowValue) : FlowM FlowValue := do
  let _ ← FlowInto dest (← exit trans final node (← entry trans final node v))
  return makeUndefined v

def dataFlowReturn (node : Node) (proc : NodeId) (expr : FlowValue → FlowM FlowValue)
    (v : FlowValue) : FlowM FlowValue := do
  let _ ← FlowInto (return_values proc)
    (← exit trans final node (← expr (← entry trans final node v)))
  return makeUndefined v

def dataFlowProc (node : Node) (n : NodeId) (body : FlowValue → FlowM FlowValue)
    (v : FlowValue) : FlowM FlowValue := do
  let _ ← exit trans final node
    (← FlowInto (return_values n) (← body (← entry trans final node init)))
  return v

mutual

/-- **`DataFlow`** -/
def dataFlow : Node → FlowValue → FlowM FlowValue
  | .null | .Prim _ | .Tdef _ | .Ptr _ _ | .Adcl _ _ _ | .Fdcl _ _ _ | .Sdcl _ _ _ | .Udcl _ _ _
  | .Edcl _ _ _ | .Attrib _ _ | .Text _ => pure
  | n@(.Const _ _) | n@(.Id _) | n@(.Sync _) | n@(.Abort _) | n@(.Synched _) =>
    dataFlowNode trans final n []
  | n@(.Binop _ op left right) =>
    if op = .ANDAND ∨ op = .OROR then
      dataFlowNode trans final n [dataFlowBranch (dataFlow left) (dataFlow right) pure]
    else
      dataFlowNode trans final n [dataFlow left, dataFlow right]
  | n@(.Unary _ op expr) =>
    if op = .SIZEOF ∨ op = .ALIGNOF then
      dataFlowNode trans final n []
    else
      dataFlowNode trans final n [dataFlow expr]
  | n@(.Cast _ _ expr) | n@(.Constructor _ _ expr) | n@(.ImplicitCast _ expr)
  | n@(.Decl _ _ expr _) | n@(.AsmArg _ _ expr) | n@(.BuiltinVaArg _ expr _) =>
    dataFlowNode trans final n [dataFlow expr]
  | n@(.Comma _ exprs) | n@(.Initializer _ exprs) =>
    dataFlowNode trans final n [dataFlowSerialList exprs]
  | n@(.Ternary _ cond t f) | n@(.IfElse _ cond t f) =>
    dataFlowNode trans final n [dataFlowBranch (dataFlow cond) (dataFlow t) (dataFlow f)]
  | n@(.If _ expr stmt) =>
    dataFlowNode trans final n [dataFlowBranch (dataFlow expr) (dataFlow stmt) pure]
  | n@(.Array _ name args) | n@(.Call _ name args) | n@(.InletCall _ name args) =>
    dataFlowNode trans final n [dataFlow name, dataFlowSerialList args]
  | n@(.Block _ decl stmts) | n@(.XBlock _ decl stmts) =>
    dataFlowNode trans final n [dataFlowSerialList decl, dataFlowSerialList stmts]
  | n@(.Asm _ template output input _) =>
    dataFlowNode trans final n
      [dataFlow template, dataFlowSerialList output, dataFlowSerialList input]
  | n@(.Spawn _ receiver name args) =>
    dataFlowNode trans final n [dataFlow receiver, dataFlow name, dataFlowSerialList args]
  | n@(.Label i) => dataFlowLabel trans final n i
  | n@(.Switch i expr stmt has_default) =>
    dataFlowSwitch trans final n i has_default (dataFlow expr) (dataFlow stmt)
  | n@(.Case _ _ container) | n@(.Default _ container) => dataFlowCase trans final n container
  | n@(.While i expr stmt) => dataFlowWhile trans final n i (dataFlow expr) (dataFlow stmt)
  | n@(.Do i stmt expr) => dataFlowDo trans final n i (dataFlow stmt) (dataFlow expr)
  | n@(.For i init cond next stmt) =>
    dataFlowFor trans final n i (dataFlow init) (if cond.isNull then none else some (dataFlow cond))
      (dataFlow next) (dataFlow stmt)
  | n@(.Goto _ label) => dataFlowJump trans final n (slot label .label_values)
  | n@(.Continue _ container) => dataFlowJump trans final n (continueSlot container)
  | n@(.Break _ container) => dataFlowJump trans final n (slot container.node .break_values)
  | n@(.Return _ expr proc) => dataFlowReturn trans final n proc (dataFlow expr)
  | n@(.Proc i _ body) => dataFlowProc trans final init n i (dataFlow body)

/-- `DataFlowSerialList` -/
def dataFlowSerialList : List Node → FlowValue → FlowM FlowValue
  | [], v => pure v
  | n :: ns, v => do dataFlowSerialList ns (← dataFlow n v)

end

end

/-- `InitConfluencePoints`, which leaves the bits of the slots as they are. -/
def initConfluencePoints (s : State) (node : Node) : State :=
  match confluencePoints node with
  | [] => s
  | dests =>
    { s with
      slots := fun k => if dests.any (· = k) then makeUndefined (s.slots k) else s.slots k
      changed := true }

/-- Passes while there are changes, `fuel` of them at most. -/
def iterate (pass : FlowM FlowValue) : ℕ → State → Option State
  | 0, s => if s.changed then none else some s
  | fuel + 1, s =>
    if s.changed then iterate pass fuel (pass { s with changed := false }).2 else some s

/-- **`IterateDataFlow`**: the state after the final pass, with the log of this
pass, if `fuel` is enough for the passes before it. -/
def iterateDataFlow (trans : TransOp) (init : FlowValue) (fuel : ℕ) (root : Node) (s : State) :
    Option State := do
  let s := root.walkTree.foldl initConfluencePoints { s with changed := false }
  let s ← iterate (dataFlow trans false init root init) fuel s
  return (dataFlow trans true init root init { s with applied := [] }).2

def AnalyzeReturnFlow (signature : NodeId → Signature) (fuel : ℕ) (root : Node) (s : State) :
    Option State :=
  iterateDataFlow (TransRF signature) (SetBit EmptySet REACHABLE) fuel root s

def AnalyzeSyncFlow (fuel : ℕ) (root : Node) (s : State) : Option State :=
  iterateDataFlow TransSF EmptySet fuel root s

/-- What the final pass decides. -/
def decisions (trans : TransOp) (s : State) : List Decision :=
  s.applied.flatMap fun a => (trans a.1.1 a.2 a.1.2 true).2

/-- **The analyses are safe on a tree**, whatever is in the slots before: they
end, the assertion of the second one holds, and nothing that either of them
decides would be another with other bits in an undefined value. -/
structure Safe (signature : NodeId → Signature) (root : Node) (s : State) : Prop where
  ends : ∃ fuel s₁, AnalyzeReturnFlow signature fuel root s = some s₁ ∧
    ∃ fuel' s₂, AnalyzeSyncFlow fuel' root s₁ = some s₂
  asserted : ∀ fuel s₁ fuel' s₂, AnalyzeReturnFlow signature fuel root s = some s₁ →
    AnalyzeSyncFlow fuel' root s₁ = some s₂ →
    ∀ n, .procedure_needs_sync n ∈ decisions TransSF s₂ →
      .needs_return n ∈ decisions (TransRF signature) s₁
  stale : ∀ fuel s₁ fuel' s₂, AnalyzeReturnFlow signature fuel root s = some s₁ →
    AnalyzeSyncFlow fuel' root s₁ = some s₂ →
    (∀ a ∈ s₁.applied, a.2.undefined = true → ∀ bits,
      (TransRF signature a.1.1 ⟨true, bits⟩ a.1.2 true).2 =
        (TransRF signature a.1.1 a.2 a.1.2 true).2) ∧
    ∀ a ∈ s₂.applied, a.2.undefined = true → ∀ bits,
      (TransSF a.1.1 ⟨true, bits⟩ a.1.2 true).2 = (TransSF a.1.1 a.2 a.1.2 true).2

end Cilk.SyncFlow
