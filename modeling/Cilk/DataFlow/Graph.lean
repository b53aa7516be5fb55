import Cilk.FlowGraph
import Cilk.DataFlow.Model

/-!
# The flow graph of a tree

`Node.code` is the control flow of a tree, in both directions: what is
evaluated after what, which jumps there are, and where they meet. From it come
the flow graph of the tree and the two passes over it, and `dataFlow` is the
pass (`dataFlow_eq`). A function of `dataflow.c` that forgets a jump, or has it
in one direction only, has no such code.
-/

namespace Cilk.DataFlow

open Ast Confluence FlowGraph

/-- Control flow between the points of nodes. -/
abbrev FlowCode := Code (NodeId × Point) (NodeId × SlotName) NodeId

/-- The entry of a procedure. -/
def enter (n : NodeId) : NodeId × Point := (n, .EntryPoint)

/-- The exit of a procedure, which its returns go to. -/
def leave (n : NodeId) : NodeId × Point := (n, .ExitPoint)

/-- From the entry of a node to its exit. -/
def around (n : NodeId) (c : FlowCode) : FlowCode :=
  .seq (.point (n, .EntryPoint)) (.seq c (.point (n, .ExitPoint)))

/-- Through a node and to a label. -/
def through (n : NodeId) (label : NodeId × SlotName) : FlowCode :=
  .seq (.point (n, .EntryPoint)) (.seq (.point (n, .ExitPoint)) (.jump label))

/-- A case or default of a switch. -/
def arm (n : NodeId) (container : Container) : FlowCode :=
  .seq (.alt .skip (.resume (container.node, .switch_values))) (around n .skip)

/-- Where a `Continue` goes to. -/
def continueLabel (container : Container) : NodeId × SlotName :=
  match container.typ with
  | .Do | .For => (container.node, .continue_values)
  | .While | .Switch => (container.node, .loop_values)

mutual

/-- **The control flow of a tree.** -/
def code : Node → FlowCode
  | .null | .Prim _ | .Tdef _ | .Ptr _ _ | .Adcl _ _ _ | .Fdcl _ _ _ | .Sdcl _ _ _ | .Udcl _ _ _
  | .Edcl _ _ _ | .Attrib _ _ | .Text _ => .skip
  | .Const n _ | .Id n | .Sync n | .Abort n | .Synched n => around n .skip
  | .Binop n op left right =>
    if op = .ANDAND ∨ op = .OROR then
      around n (.seq (code left) (.alt (code right) .skip))
    else
      around n (.seq (code left) (code right))
  | .Unary n op expr =>
    if op = .SIZEOF ∨ op = .ALIGNOF then around n .skip else around n (code expr)
  | .Cast n _ a | .Constructor n _ a | .ImplicitCast n a | .Decl n _ a _ | .AsmArg n _ a
  | .BuiltinVaArg n a _ => around n (code a)
  | .Comma n as | .Initializer n as => around n (codeList as)
  | .Ternary n cond t f | .IfElse n cond t f =>
    around n (.seq (code cond) (.alt (code t) (code f)))
  | .If n expr stmt => around n (.seq (code expr) (.alt (code stmt) .skip))
  | .Array n name as | .Call n name as | .InletCall n name as =>
    around n (.seq (code name) (codeList as))
  | .Block n decl stmts | .XBlock n decl stmts => around n (.seq (codeList decl) (codeList stmts))
  | .Asm n template output input _ =>
    around n (.seq (code template) (.seq (codeList output) (codeList input)))
  | .Spawn n receiver name args =>
    around n (.seq (code receiver) (.seq (code name) (codeList args)))
  | .Label n => .seq (.join (n, .label_values)) (around n .skip)
  | .Switch n expr stmt has_default =>
    around n <| .seq (code expr) <| .seq (.jump (n, .switch_values)) <|
      .seq (if has_default then .skip else
        .seq (.resume (n, .switch_values)) (.jump (n, .break_values))) <|
      .seq (code stmt) (.join (n, .break_values))
  | .Case n _ container | .Default n container => arm n container
  | .While n expr stmt =>
    around n <| .seq (.join (n, .loop_values)) <| .seq (code expr) <|
      .seq (.alt (.seq (code stmt) (.jump (n, .loop_values))) (.jump (n, .break_values))) <|
      .resume (n, .break_values)
  | .Do n stmt expr =>
    around n <| .seq (.join (n, .loop_values)) <| .seq (code stmt) <|
      .seq (.join (n, .continue_values)) <| .seq (code expr) <|
      .seq (.alt (.jump (n, .loop_values)) (.jump (n, .break_values))) <|
      .resume (n, .break_values)
  | .For n init cond next stmt =>
    around n <| .seq (code init) <| .seq (.join (n, .loop_values)) <|
      .seq (if cond.isNull then .skip else
        .seq (code cond) (.alt (.jump (n, .break_values)) .skip)) <|
      .seq (code stmt) <| .seq (.join (n, .continue_values)) <| .seq (code next) <|
      .seq (.jump (n, .loop_values)) (.resume (n, .break_values))
  | .Goto n label => through n (label, .label_values)
  | .Continue n container => through n (continueLabel container)
  | .Break n container => through n (container.node, .break_values)
  | .Return n expr proc =>
    .seq (.point (n, .EntryPoint)) (.seq (code expr) (.ret (n, .ExitPoint) proc))
  | .Proc n _ body => .proc n (code body)

def codeList : List Node → FlowCode
  | [] => .skip
  | n :: ns => .seq (code n) (codeList ns)

end

/-! ## The pass over a tree -/

variable {V : Type}

/-- The pass over the code of a tree. -/
def pass (dir : Direction) (init : V) (c : FlowCode) : Pass (NodeId × Point) Slot V :=
  match dir with
  | .Forwards => c.forward enter leave init
  | .Backwards => c.backward enter leave init

variable [SemilatticeInf V] [OrderTop V] [DecidableEq V] (trans : NodeId × Point → V → V)
  (dir : Direction) (init : V)

theorem FlowInto_eq (dest : Slot) :
    (FlowInto dest : V → FlowM V V) = (Pass.join dest).run trans :=
  (funext fun v => Pass.run_join dest v).symm

omit [SemilatticeInf V] [OrderTop V] [DecidableEq V] in
/-- Two slots are read in either order. -/
theorem read_comm (k l : Slot) (f : V → V → FlowM V V) :
    (do let x ← read k; let y ← read l; f x y) = (do let y ← read l; let x ← read k; f x y) :=
  rfl

mutual

/-- **The framework makes the pass over the code of the tree.** -/
theorem dataFlow_eq : ∀ n : Node,
    dataFlow trans dir init n = (pass dir init (code n)).run trans
  | .null | .Prim _ | .Tdef _ | .Ptr _ _ | .Adcl _ _ _ | .Fdcl _ _ _ | .Sdcl _ _ _ | .Udcl _ _ _
  | .Edcl _ _ _ | .Attrib _ _ | .Text _ => by
    rw [dataFlow, code]
    cases dir <;> rfl
  | .Const n _ | .Id n | .Sync n | .Abort n | .Synched n => by
    rw [dataFlow, code]
    cases dir <;> rfl
  | .Binop n op a b => by
    rw [dataFlow, code, dataFlow_eq a, dataFlow_eq b, dataFlowBinop]
    split_ifs
    · cases dir <;> rfl
    · cases dir <;> rfl
  | .Unary n op a => by
    rw [dataFlow, code, dataFlow_eq a, dataFlowUnary]
    split_ifs
    · cases dir <;> rfl
    · cases dir <;> rfl
  | .Cast n _ a | .Constructor n _ a | .ImplicitCast n a | .Decl n _ a _ | .AsmArg n _ a
  | .BuiltinVaArg n a _ => by
    rw [dataFlow, code, dataFlow_eq a]
    cases dir <;> rfl
  | .Comma n as | .Initializer n as => by
    rw [dataFlow, code, dataFlowSerialList_eq as]
    cases dir <;> rfl
  | .Ternary n a b c | .IfElse n a b c => by
    rw [dataFlow, code, dataFlow_eq a, dataFlow_eq b, dataFlow_eq c]
    cases dir <;> rfl
  | .If n a b => by
    rw [dataFlow, code, dataFlow_eq a, dataFlow_eq b]
    cases dir <;> rfl
  | .Array n a bs | .Call n a bs | .InletCall n a bs => by
    rw [dataFlow, code, dataFlow_eq a, dataFlowSerialList_eq bs]
    cases dir <;> rfl
  | .Block n as bs | .XBlock n as bs => by
    rw [dataFlow, code, dataFlowSerialList_eq as, dataFlowSerialList_eq bs]
    cases dir <;> rfl
  | .Asm n a bs cs _ => by
    rw [dataFlow, code, dataFlow_eq a, dataFlowSerialList_eq bs, dataFlowSerialList_eq cs]
    cases dir <;> rfl
  | .Spawn n a b cs => by
    rw [dataFlow, code, dataFlow_eq a, dataFlow_eq b, dataFlowSerialList_eq cs]
    cases dir <;> rfl
  | .Label n => by
    rw [dataFlow, code]
    funext v
    unfold dataFlowLabel
    rw [FlowInto_eq trans]
    cases dir <;> rfl
  | .Switch n a b has_default => by
    rw [dataFlow, code, dataFlow_eq a, dataFlow_eq b]
    funext v
    unfold dataFlowSwitch
    rw [FlowInto_eq trans (slot n .break_values)]
    cases has_default <;> cases dir <;> rfl
  | .Case n _ container => by
    rw [dataFlow, code]
    funext v s
    cases dir
    · refine Prod.ext ?_ rfl
      exact (inf_top_eq _).symm
    · rfl
  | .Default n container => by
    rw [dataFlow, code]
    funext v s
    cases dir
    · refine Prod.ext ?_ rfl
      exact (inf_top_eq _).symm
    · rfl
  | .While n a b => by
    rw [dataFlow, code, dataFlow_eq a, dataFlow_eq b]
    funext v
    unfold dataFlowWhile
    rw [FlowInto_eq trans (slot n .loop_values)]
    cases dir <;> rfl
  | .Do n a b => by
    rw [dataFlow, code, dataFlow_eq a, dataFlow_eq b]
    funext v
    cases dir
    · simp only [dataFlowDo, read_comm (.inl (n, .break_values)) (.inl (n, .loop_values)), inf_comm, pass, around, Code.backward, Code.join,
        Pass.run, bind_assoc, pure_bind, FlowInto, entry, exit, slot]
    · unfold dataFlowDo
      rw [FlowInto_eq trans (slot n .loop_values)]
      rfl
  | .For n a b c d => by
    rw [dataFlow, code, dataFlow_eq a, dataFlow_eq b, dataFlow_eq c, dataFlow_eq d]
    funext v
    split_ifs
    · cases dir
      · simp only [dataFlowFor, pass, around, Code.backward, Code.join, Pass.run, bind_assoc,
          pure_bind, FlowInto, entry, exit, slot]
      · simp only [dataFlowFor, pass, around, Code.forward, Code.join, Pass.run, bind_assoc,
          pure_bind, FlowInto, entry, exit, slot]
    · cases dir
      · simp only [dataFlowFor, pass, around, Code.backward, Code.join, Pass.run, bind_assoc,
          pure_bind, FlowInto, entry, exit, slot]
      · simp only [dataFlowFor, pass, around, Code.forward, Code.join, Pass.run, bind_assoc,
          pure_bind, FlowInto, entry, exit, slot, top_inf_eq]
  | .Goto n label => by
    rw [dataFlow, code]
    cases dir <;> rfl
  | .Continue n ⟨_, typ⟩ => by
    rw [dataFlow, code]
    cases typ <;> cases dir <;> rfl
  | .Break n container => by
    rw [dataFlow, code]
    cases dir <;> rfl
  | .Return n a proc => by
    rw [dataFlow, code, dataFlow_eq a]
    cases dir <;> rfl
  | .Proc n _ a => by
    rw [dataFlow, code, dataFlow_eq a]
    funext v
    unfold dataFlowProc
    rw [FlowInto_eq trans]
    cases dir <;> rfl

theorem dataFlowSerialList_eq : ∀ ns : List Node,
    dataFlowSerialList trans dir init ns = (pass dir init (codeList ns)).run trans
  | [] => by
    funext v
    rw [codeList]
    cases dir <;> rfl
  | n :: ns => by
    funext v
    unfold dataFlowSerialList
    rw [codeList, dataFlow_eq n, dataFlowSerialList_eq ns]
    cases dir <;> rfl

end

end Cilk.DataFlow
