import Cilk.SyncFlow.Model
import Cilk.DataFlow.Soundness

/-!
# The bits under the undefined flag do not flow

With its stale bits dropped, a flow value is one of a semilattice, and the
framework on flow values does what `DataFlow.dataFlow` does on these: the bits
under the undefined flag never come to a defined value, and they do not change
when the iteration ends. What is left of them is what a transfer function
decides by them.
-/

namespace Cilk.SyncFlow

open Ast Ast.Node
open DataFlow (Point Slot SlotName slot return_values confluencePoints continueSlot)

/-- Sets of bits, the larger the lower, and the undefined value on top. -/
abbrev Value := WithTop BitVectorᵒᵈ

/-! ## Values without their stale bits -/

/-- A flow value without its bits where it is undefined. More bits mean less, as
the confluence is a union. -/
def FlowValue.abs (v : FlowValue) : Value :=
  if v.undefined then ⊤ else (OrderDual.toDual v.bitvector : BitVectorᵒᵈ)

theorem abs_of_undefined {v : FlowValue} (h : v.undefined = true) : v.abs = ⊤ := if_pos h

theorem abs_of_defined {v : FlowValue} (h : v.undefined = false) :
    v.abs = (OrderDual.toDual v.bitvector : BitVectorᵒᵈ) :=
  if_neg (by rw [h]; exact Bool.false_ne_true)

/-- `MakeUndefined` is the top. -/
theorem abs_makeUndefined (v : FlowValue) : (makeUndefined v).abs = ⊤ := abs_of_undefined rfl

/-- **The union of the bits is the meet.** -/
theorem abs_SetUnion (v₁ v₂ : FlowValue) : (SetUnion v₁ v₂).abs = v₁.abs ⊓ v₂.abs := by
  unfold SetUnion
  cases h₁ : v₁.undefined
  · cases h₂ : v₂.undefined
    · rw [abs_of_defined h₁, abs_of_defined h₂]
      rfl
    · rw [abs_of_undefined h₂, inf_top_eq]
      rfl
  · rw [abs_of_undefined h₁, top_inf_eq]
    rfl

/-- `SetEqual` compares what is left. -/
theorem SetEqual_iff (v₁ v₂ : FlowValue) : SetEqual v₁ v₂ = true ↔ v₁.abs = v₂.abs := by
  unfold SetEqual
  cases h₁ : v₁.undefined <;> cases h₂ : v₂.undefined
  · rw [abs_of_defined h₁, abs_of_defined h₂, WithTop.coe_inj, OrderDual.toDual_inj]
    exact decide_eq_true_iff
  · rw [abs_of_defined h₁, abs_of_undefined h₂]
    exact ⟨nofun, fun h => absurd h (WithTop.coe_ne_top)⟩
  · rw [abs_of_undefined h₁, abs_of_defined h₂]
    exact ⟨nofun, fun h => absurd h.symm (WithTop.coe_ne_top)⟩
  · rw [abs_of_undefined h₁, abs_of_undefined h₂]
    exact ⟨fun _ => rfl, fun _ => rfl⟩

/-- The state without the stale bits. -/
def State.abs (s : State) : Confluence.State (NodeId × Point) Slot Value where
  slots k := (s.slots k).abs
  changed := s.changed
  applied := s.applied.map fun a => ((a.1.1.id, a.1.2), a.2.abs)

/-! ## One operation -/

/-- The step `m'` does without the stale bits what `m` does with them, and `m`
applies the transfer function to nodes of the list `l` only. -/
structure Simulates (l : List Node) (m : FlowM FlowValue) (m' : DataFlow.FlowM Value Value) :
    Prop where
  run : ∀ s, m' s.abs = ((m s).1.abs, (m s).2.abs)
  applied : ∀ s, ∀ a ∈ (m s).2.applied, a ∈ s.applied ∨ a.1.1 ∈ l

/-- Two analyses of a node go together from any value. -/
def Sim (l : List Node) (f : FlowValue → FlowM FlowValue)
    (f' : Value → DataFlow.FlowM Value Value) : Prop :=
  ∀ v, Simulates l (f v) (f' v.abs)

variable {l : List Node}

namespace Simulates

/-- Nothing is done on either side. -/
theorem pure (v : FlowValue) : Simulates l (pure v) (pure v.abs) where
  run _ := rfl
  applied _ _ ha := .inl ha

/-- One after the other. -/
theorem bind {m : FlowM FlowValue} {m' : DataFlow.FlowM Value Value}
    {f : FlowValue → FlowM FlowValue} {f' : Value → DataFlow.FlowM Value Value}
    (h : Simulates l m m') (hf : Sim l f f') : Simulates l (m >>= f) (m' >>= f') where
  run s := by
    show f' (m' s.abs).1 (m' s.abs).2 = _
    rw [h.run s]
    exact (hf _).run _
  applied s a ha := ((hf _).applied _ a ha).elim (h.applied s a) .inr

/-- A slot is read. -/
theorem read (dest : Slot) : Simulates l (read dest) (Confluence.read dest) where
  run _ := rfl
  applied _ _ ha := .inl ha

end Simulates

/-- A slot that is written. -/
theorem abs_update (slots : Slot → FlowValue) (dest : Slot) (v : FlowValue) :
    (fun k => (Function.update slots dest v k).abs) =
      Function.update (fun k => (slots k).abs) dest v.abs := by
  funext k
  by_cases hk : k = dest
  · rw [hk, Function.update_self, Function.update_self]
  · rw [Function.update_of_ne hk, Function.update_of_ne hk]

/-- `FlowInto`, where the slot changes and where it does not. -/
theorem FlowInto_eq (dest : Slot) (v : FlowValue) (s : State) :
    FlowInto dest v s = (SetUnion (s.slots dest) v,
      if SetEqual (s.slots dest) (SetUnion (s.slots dest) v) then s
      else { s with
        slots := Function.update s.slots dest (SetUnion (s.slots dest) v)
        changed := true }) := by
  show (if !SetEqual (s.slots dest) (SetUnion (s.slots dest) v) then _ else _ :
    FlowM FlowValue) s = _
  cases SetEqual (s.slots dest) (SetUnion (s.slots dest) v) <;> rfl

/-- `FlowInto` merges the same values on both sides. -/
theorem sim_FlowInto (dest : Slot) : Sim l (FlowInto dest) (DataFlow.FlowInto dest) := by
  refine fun v => ⟨fun s => ?_, fun s a ha => ?_⟩
  · show Confluence.flowInto dest v.abs s.abs = _
    have hnew : s.abs.slots dest ⊓ v.abs = (SetUnion (s.slots dest) v).abs :=
      (abs_SetUnion _ _).symm
    have heq : s.abs.slots dest = (SetUnion (s.slots dest) v).abs ↔
        SetEqual (s.slots dest) (SetUnion (s.slots dest) v) = true := (SetEqual_iff _ _).symm
    rw [Confluence.flowInto_eq, hnew, FlowInto_eq]
    by_cases h : SetEqual (s.slots dest) (SetUnion (s.slots dest) v) = true
    · rw [if_pos (heq.mpr h), if_pos h]
    · rw [if_neg (mt heq.mp h), if_neg h]
      refine Prod.ext rfl ?_
      show _ = State.abs _
      unfold State.abs
      rw [abs_update]
  · rw [FlowInto_eq] at ha
    dsimp only at ha
    split_ifs at ha <;> exact .inl ha

namespace Sim

variable {f g : FlowValue → FlowM FlowValue} {f' g' : Value → DataFlow.FlowM Value Value}

theorem pure : Sim l pure pure := Simulates.pure

/-- The value that comes is not used. -/
theorem const {m : FlowM FlowValue} {m' : DataFlow.FlowM Value Value} (h : Simulates l m m') :
    Sim l (fun _ => m) fun _ => m' := fun _ => h

/-- The parts of a node, in turn. -/
theorem foldlM {fs : List (FlowValue → FlowM FlowValue)}
    {fs' : List (Value → DataFlow.FlowM Value Value)} (h : List.Forall₂ (Sim l) fs fs') :
    Sim l (fun v => fs.foldlM (fun v f => f v) v) fun v => fs'.foldlM (fun v f => f v) v := by
  induction h with
  | nil => exact .pure
  | cons hf _ ih => exact fun v => (hf v).bind ih

end Sim

/-! ## The nodes of a tree -/

section

variable {trans : TransOp} {trans' : NodeId × Point → Value → Value} {final : Bool}
  {init : FlowValue}

/-- The transfer function `trans'` is `trans` without the stale bits, on the
nodes of a list. -/
def Drops (trans : TransOp) (trans' : NodeId × Point → Value → Value) (l : List Node) : Prop :=
  ∀ node ∈ l, ∀ v p final, (trans node v p final).1.abs = trans' (node.id, p) v.abs

/-- The transfer function at a point of a node, where it drops the stale bits.
-/
theorem sim_apply (h : Drops trans trans' l) {node : Node} (hnode : node ∈ l) (p : Point) :
    Sim l (apply trans final node p) (Confluence.apply trans' (node.id, p)) := by
  refine fun v => ⟨fun s => ?_, fun s a ha => ?_⟩
  · refine Prod.ext (h node hnode v p final).symm ?_
    show Confluence.State.mk _ _ (s.abs.applied ++ [((node.id, p), v.abs)]) =
      Confluence.State.mk _ _ ((s.applied ++ [((node, p), v)]).map _)
    rw [List.map_append]
    rfl
  · refine (List.mem_append.mp ha).imp_right fun ha => ?_
    rw [List.mem_singleton.mp ha]
    exact hnode

/-- A node whose parts are walked in turn. -/
theorem sim_node (h : Drops trans trans' l) {node : Node} (hnode : node ∈ l)
    {fs : List (FlowValue → FlowM FlowValue)} {fs' : List (Value → DataFlow.FlowM Value Value)}
    (hfs : List.Forall₂ (Sim l) fs fs') :
    Sim l (dataFlowNode trans final node fs) (DataFlow.dataFlowNode trans' .Forwards node.id fs') :=
  fun v => (sim_apply h hnode _ v).bind fun v => (Sim.foldlM hfs v).bind (sim_apply h hnode _)

/-- The two branches of a conditional start from the same value. -/
theorem sim_branch {c t f : FlowValue → FlowM FlowValue}
    {c' t' f' : Value → DataFlow.FlowM Value Value} (hc : Sim l c c') (ht : Sim l t t')
    (hf : Sim l f f') :
    Sim l (dataFlowBranch c t f) (DataFlow.dataFlowBranch .Forwards c' t' f') := by
  intro v
  refine (hc v).bind fun v => (ht v).bind fun t => (hf v).bind fun f => ?_
  rw [← abs_SetUnion]
  exact .pure _

/-- A label, where the gotos to it flow together. -/
theorem sim_label (h : Drops trans trans' l) {n : NodeId} (hnode : .Label n ∈ l) :
    Sim l (dataFlowLabel trans final (.Label n) n) (DataFlow.dataFlowLabel trans' .Forwards n) :=
  fun v => (sim_FlowInto _ v).bind fun v =>
    (sim_apply h hnode _ v).bind (sim_apply h hnode _)

/-- A switch, whose cases are reached from its expression. -/
theorem sim_switch (h : Drops trans trans' l) {node : Node} (hnode : node ∈ l)
    (has_default : Bool) {expr stmt : FlowValue → FlowM FlowValue}
    {expr' stmt' : Value → DataFlow.FlowM Value Value} (hexpr : Sim l expr expr')
    (hstmt : Sim l stmt stmt') :
    Sim l (dataFlowSwitch trans final node node.id has_default expr stmt)
      (DataFlow.dataFlowSwitch trans' .Forwards node.id has_default expr' stmt') := by
  intro v
  have hbody : Sim l (fun _ => stmt (makeUndefined v)) fun _ => stmt' ⊤ := by
    rw [← abs_makeUndefined v]
    exact .const (hstmt (makeUndefined v))
  have hrest : Simulates l
      (do
        let _ ← FlowInto (slot node.id .break_values) (← stmt (makeUndefined v))
        exit trans final node (← read (slot node.id .break_values)))
      (do
        let _ ← DataFlow.FlowInto (slot node.id .break_values) (← stmt' ⊤)
        DataFlow.exit trans' node.id (← Confluence.read (slot node.id .break_values))) :=
    (hbody v).bind fun v => (sim_FlowInto _ v).bind fun _ =>
      (Simulates.read _).bind (sim_apply h hnode _)
  cases has_default
  · exact (sim_apply h hnode _ v).bind fun v => (hexpr v).bind fun v =>
      (sim_FlowInto _ v).bind fun _ => (Simulates.read _).bind fun v =>
        (sim_FlowInto _ v).bind fun _ => hrest
  · exact (sim_apply h hnode _ v).bind fun v => (hexpr v).bind fun v =>
      (sim_FlowInto _ v).bind fun _ => hrest

/-- A `case` or `default` of a switch. -/
theorem sim_case (h : Drops trans trans' l) {node : Node} (hnode : node ∈ l)
    (container : Container) :
    Sim l (dataFlowCase trans final node container)
      (DataFlow.dataFlowCase trans' .Forwards node.id container) := by
  refine fun v => (Simulates.read _).bind fun w => ?_
  rw [← abs_SetUnion]
  exact (sim_apply h hnode _ _).bind (sim_apply h hnode _)

/-- A loop with its condition at the head. -/
theorem sim_while (h : Drops trans trans' l) {node : Node} (hnode : node ∈ l)
    {expr stmt : FlowValue → FlowM FlowValue} {expr' stmt' : Value → DataFlow.FlowM Value Value}
    (hexpr : Sim l expr expr') (hstmt : Sim l stmt stmt') :
    Sim l (dataFlowWhile trans final node node.id expr stmt)
      (DataFlow.dataFlowWhile trans' .Forwards node.id expr' stmt') :=
  fun v => (sim_apply h hnode _ v).bind fun v => (sim_FlowInto _ v).bind fun _ =>
    (Simulates.read _).bind fun v => (hexpr v).bind fun e => (hstmt e).bind fun v =>
      (sim_FlowInto _ v).bind fun _ => (sim_FlowInto _ e).bind fun _ =>
        (Simulates.read _).bind (sim_apply h hnode _)

/-- A loop with its condition at the end. -/
theorem sim_do (h : Drops trans trans' l) {node : Node} (hnode : node ∈ l)
    {stmt expr : FlowValue → FlowM FlowValue} {stmt' expr' : Value → DataFlow.FlowM Value Value}
    (hstmt : Sim l stmt stmt') (hexpr : Sim l expr expr') :
    Sim l (dataFlowDo trans final node node.id stmt expr)
      (DataFlow.dataFlowDo trans' .Forwards node.id stmt' expr') :=
  fun v => (sim_apply h hnode _ v).bind fun v => (sim_FlowInto _ v).bind fun _ =>
    (Simulates.read _).bind fun v => (hstmt v).bind fun v => (sim_FlowInto _ v).bind fun _ =>
      (Simulates.read _).bind fun v => (hexpr v).bind fun e => (sim_FlowInto _ e).bind fun _ =>
        (sim_FlowInto _ e).bind fun _ => (Simulates.read _).bind (sim_apply h hnode _)

/-- A `for`, whose condition may be missing. -/
theorem sim_for (h : Drops trans trans' l) {node : Node} (hnode : node ∈ l)
    {init next stmt : FlowValue → FlowM FlowValue}
    {init' next' stmt' : Value → DataFlow.FlowM Value Value}
    {cond : Option (FlowValue → FlowM FlowValue)}
    {cond' : Option (Value → DataFlow.FlowM Value Value)} (hinit : Sim l init init')
    (hcond : Option.Rel (Sim l) cond cond') (hnext : Sim l next next') (hstmt : Sim l stmt stmt') :
    Sim l (dataFlowFor trans final node node.id init cond next stmt)
      (DataFlow.dataFlowFor trans' .Forwards node.id init' cond' next' stmt') := by
  intro v
  have hloop : ∀ e : FlowValue, Simulates l
      (do
        let _ ← FlowInto (slot node.id .continue_values) (← stmt e)
        let _ ← FlowInto (slot node.id .loop_values)
          (← next (← read (slot node.id .continue_values)))
        exit trans final node (← read (slot node.id .break_values)))
      (do
        let _ ← DataFlow.FlowInto (slot node.id .continue_values) (← stmt' e.abs)
        let _ ← DataFlow.FlowInto (slot node.id .loop_values)
          (← next' (← Confluence.read (slot node.id .continue_values)))
        DataFlow.exit trans' node.id (← Confluence.read (slot node.id .break_values))) :=
    fun e => (hstmt e).bind fun v => (sim_FlowInto _ v).bind fun _ =>
      (Simulates.read _).bind fun v => (hnext v).bind fun v => (sim_FlowInto _ v).bind fun _ =>
        (Simulates.read _).bind (sim_apply h hnode _)
  cases hcond with
  | none =>
    exact (sim_apply h hnode _ v).bind fun v => (hinit v).bind fun v =>
      (sim_FlowInto _ v).bind fun _ => (Simulates.read _).bind hloop
  | some hcond =>
    exact (sim_apply h hnode _ v).bind fun v => (hinit v).bind fun v =>
      (sim_FlowInto _ v).bind fun _ => (Simulates.read _).bind fun v => (hcond v).bind fun e =>
        (sim_FlowInto _ e).bind fun _ => hloop e

/-- A jump leaves nothing behind it. -/
theorem sim_jump (h : Drops trans trans' l) {node : Node} (hnode : node ∈ l) (dest : Slot) :
    Sim l (dataFlowJump trans final node dest)
      (DataFlow.dataFlowJump trans' .Forwards node.id dest) := by
  intro v
  refine (sim_apply h hnode _ v).bind fun w => (sim_apply h hnode _ w).bind fun w =>
    (sim_FlowInto _ w).bind fun _ => ?_
  rw [← abs_makeUndefined v]
  exact .pure _

/-- A `return` flows to the exit of the procedure. -/
theorem sim_return (h : Drops trans trans' l) {node : Node} (hnode : node ∈ l) (proc : NodeId)
    {expr : FlowValue → FlowM FlowValue} {expr' : Value → DataFlow.FlowM Value Value}
    (hexpr : Sim l expr expr') :
    Sim l (dataFlowReturn trans final node proc expr)
      (DataFlow.dataFlowReturn trans' .Forwards init.abs node.id proc expr') := by
  intro v
  refine (sim_apply h hnode _ v).bind fun w => (hexpr w).bind fun w =>
    (sim_apply h hnode _ w).bind fun w => (sim_FlowInto _ w).bind fun _ => ?_
  rw [← abs_makeUndefined v]
  exact .pure _

/-- A procedure, from the initial value to its exit. -/
theorem sim_proc (h : Drops trans trans' l) {node : Node} (hnode : node ∈ l)
    {body : FlowValue → FlowM FlowValue} {body' : Value → DataFlow.FlowM Value Value}
    (hbody : Sim l body body') :
    Sim l (dataFlowProc trans final init node node.id body)
      (DataFlow.dataFlowProc trans' .Forwards init.abs node.id body') :=
  fun v => (sim_apply h hnode _ init).bind fun w => (hbody w).bind fun w =>
    (sim_FlowInto _ w).bind fun w => (sim_apply h hnode _ w).bind fun _ => .pure v

mutual

/-- **The framework on flow values** does what it does without the stale
bits. -/
theorem sim_dataFlow (hd : Drops trans trans' l) : ∀ n : Node, n.walkTree ⊆ l →
    Sim l (dataFlow trans final init n) (DataFlow.dataFlow trans' .Forwards init.abs n)
  | .null, _ | .Prim _, _ | .Tdef _, _ | .Ptr _ _, _ | .Adcl _ _ _, _ | .Fdcl _ _ _, _
  | .Sdcl _ _ _, _ | .Udcl _ _ _, _ | .Edcl _ _ _, _ | .Attrib _ _, _ | .Text _, _ => by
    rw [dataFlow, DataFlow.dataFlow]
    exact .pure
  | .Const n _, h => by
    rw [walkTree, List.cons_subset] at h
    rw [dataFlow, DataFlow.dataFlow]
    exact sim_node hd h.1 .nil
  | .Id n, h | .Sync n, h | .Abort n, h | .Synched n, h => by
    rw [walkTree, List.cons_subset] at h
    rw [dataFlow, DataFlow.dataFlow]
    exact sim_node hd h.1 .nil
  | .Binop n op a b, h => by
    rw [walkTree, List.cons_subset, List.append_subset] at h
    have ha := sim_dataFlow hd a h.2.1
    have hb := sim_dataFlow hd b h.2.2
    rw [dataFlow, DataFlow.dataFlow, DataFlow.dataFlowBinop]
    split_ifs
    · exact sim_node hd h.1 (.cons (sim_branch ha hb .pure) .nil)
    · exact sim_node hd h.1 (.cons ha (.cons hb .nil))
  | .Unary n op a, h => by
    rw [walkTree, List.cons_subset] at h
    rw [dataFlow, DataFlow.dataFlow, DataFlow.dataFlowUnary]
    split_ifs
    · exact sim_node hd h.1 .nil
    · exact sim_node hd h.1 (.cons (sim_dataFlow hd a h.2) .nil)
  | .Cast n a b, h | .Constructor n a b, h | .AsmArg n a b, h => by
    rw [walkTree, List.cons_subset, List.append_subset] at h
    rw [dataFlow, DataFlow.dataFlow]
    exact sim_node hd h.1 (.cons (sim_dataFlow hd b h.2.2) .nil)
  | .BuiltinVaArg n a b, h => by
    rw [walkTree, List.cons_subset, List.append_subset] at h
    rw [dataFlow, DataFlow.dataFlow]
    exact sim_node hd h.1 (.cons (sim_dataFlow hd a h.2.1) .nil)
  | .ImplicitCast n a, h => by
    rw [walkTree, List.cons_subset] at h
    rw [dataFlow, DataFlow.dataFlow]
    exact sim_node hd h.1 (.cons (sim_dataFlow hd a h.2) .nil)
  | .Decl n a b c, h => by
    rw [walkTree, List.cons_subset, List.append_subset, List.append_subset] at h
    rw [dataFlow, DataFlow.dataFlow]
    exact sim_node hd h.1 (.cons (sim_dataFlow hd b h.2.2.1) .nil)
  | .Comma n as, h | .Initializer n as, h => by
    rw [walkTree, List.cons_subset] at h
    rw [dataFlow, DataFlow.dataFlow]
    exact sim_node hd h.1 (.cons (sim_dataFlowSerialList hd as h.2) .nil)
  | .Ternary n a b c, h | .IfElse n a b c, h => by
    rw [walkTree, List.cons_subset, List.append_subset, List.append_subset] at h
    rw [dataFlow, DataFlow.dataFlow]
    exact sim_node hd h.1 (.cons (sim_branch (sim_dataFlow hd a h.2.1) (sim_dataFlow hd b h.2.2.1)
      (sim_dataFlow hd c h.2.2.2)) .nil)
  | .If n a b, h => by
    rw [walkTree, List.cons_subset, List.append_subset] at h
    rw [dataFlow, DataFlow.dataFlow]
    exact sim_node hd h.1 (.cons (sim_branch (sim_dataFlow hd a h.2.1) (sim_dataFlow hd b h.2.2)
      .pure) .nil)
  | .Array n a bs, h | .Call n a bs, h | .InletCall n a bs, h => by
    rw [walkTree, List.cons_subset, List.append_subset] at h
    rw [dataFlow, DataFlow.dataFlow]
    exact sim_node hd h.1 (.cons (sim_dataFlow hd a h.2.1)
      (.cons (sim_dataFlowSerialList hd bs h.2.2) .nil))
  | .Block n as bs, h | .XBlock n as bs, h => by
    rw [walkTree, List.cons_subset, List.append_subset] at h
    rw [dataFlow, DataFlow.dataFlow]
    exact sim_node hd h.1 (.cons (sim_dataFlowSerialList hd as h.2.1)
      (.cons (sim_dataFlowSerialList hd bs h.2.2) .nil))
  | .Asm n a bs cs ds, h => by
    rw [walkTree, List.cons_subset, List.append_subset, List.append_subset,
      List.append_subset] at h
    rw [dataFlow, DataFlow.dataFlow]
    exact sim_node hd h.1 (.cons (sim_dataFlow hd a h.2.1)
      (.cons (sim_dataFlowSerialList hd bs h.2.2.1)
        (.cons (sim_dataFlowSerialList hd cs h.2.2.2.1) .nil)))
  | .Spawn n a b cs, h => by
    rw [walkTree, List.cons_subset, List.append_subset, List.append_subset] at h
    rw [dataFlow, DataFlow.dataFlow]
    exact sim_node hd h.1 (.cons (sim_dataFlow hd a h.2.1) (.cons (sim_dataFlow hd b h.2.2.1)
      (.cons (sim_dataFlowSerialList hd cs h.2.2.2) .nil)))
  | .Label n, h => by
    rw [walkTree, List.cons_subset] at h
    rw [dataFlow, DataFlow.dataFlow]
    exact sim_label hd h.1
  | .Switch n a b has_default, h => by
    rw [walkTree, List.cons_subset, List.append_subset] at h
    rw [dataFlow, DataFlow.dataFlow]
    exact sim_switch hd h.1 has_default (sim_dataFlow hd a h.2.1) (sim_dataFlow hd b h.2.2)
  | .Case n a container, h | .Default n container, h => by
    rw [walkTree, List.cons_subset] at h
    rw [dataFlow, DataFlow.dataFlow]
    exact sim_case hd h.1 container
  | .While n a b, h => by
    rw [walkTree, List.cons_subset, List.append_subset] at h
    rw [dataFlow, DataFlow.dataFlow]
    exact sim_while hd h.1 (sim_dataFlow hd a h.2.1) (sim_dataFlow hd b h.2.2)
  | .Do n a b, h => by
    rw [walkTree, List.cons_subset, List.append_subset] at h
    rw [dataFlow, DataFlow.dataFlow]
    exact sim_do hd h.1 (sim_dataFlow hd a h.2.1) (sim_dataFlow hd b h.2.2)
  | .For n a b c d, h => by
    rw [walkTree, List.cons_subset, List.append_subset, List.append_subset,
      List.append_subset] at h
    rw [dataFlow, DataFlow.dataFlow]
    refine sim_for hd h.1 (sim_dataFlow hd a h.2.1) ?_ (sim_dataFlow hd c h.2.2.2.1)
      (sim_dataFlow hd d h.2.2.2.2)
    split_ifs
    · exact .none
    · exact .some (sim_dataFlow hd b h.2.2.1)
  | .Goto n label, h => by
    rw [walkTree, List.cons_subset] at h
    rw [dataFlow, DataFlow.dataFlow]
    exact sim_jump hd h.1 _
  | .Continue n container, h | .Break n container, h => by
    rw [walkTree, List.cons_subset] at h
    rw [dataFlow, DataFlow.dataFlow]
    exact sim_jump hd h.1 _
  | .Return n a proc, h => by
    rw [walkTree, List.cons_subset] at h
    rw [dataFlow, DataFlow.dataFlow]
    exact sim_return hd h.1 proc (sim_dataFlow hd a h.2)
  | .Proc n a b, h => by
    rw [walkTree, List.cons_subset, List.append_subset] at h
    rw [dataFlow, DataFlow.dataFlow]
    exact sim_proc hd h.1 (sim_dataFlow hd b h.2.2)

/-- A list of nodes. -/
theorem sim_dataFlowSerialList (hd : Drops trans trans' l) : ∀ ns : List Node,
    walkList ns ⊆ l →
    Sim l (dataFlowSerialList trans final init ns)
      (DataFlow.dataFlowSerialList trans' .Forwards init.abs ns)
  | [], _ => by
    intro v
    rw [dataFlowSerialList, DataFlow.dataFlowSerialList]
    exact .pure v
  | n :: ns, h => by
    rw [walkList, List.append_subset] at h
    intro v
    rw [dataFlowSerialList, DataFlow.dataFlowSerialList]
    exact (sim_dataFlow hd n h.1 v).bind (sim_dataFlowSerialList hd ns h.2)

end

/-! ## Iteration -/

/-- Both begin with every slot at the top. -/
theorem abs_initConfluencePoints (s : State) (node : Node) :
    (initConfluencePoints s node).abs = DataFlow.initConfluencePoints s.abs node := by
  unfold initConfluencePoints DataFlow.initConfluencePoints
  cases confluencePoints node with
  | nil => rfl
  | cons dest dests =>
    refine congrArg (fun slots => Confluence.State.mk slots true s.abs.applied)
      (funext fun k => ?_)
    dsimp only
    split_ifs
    · exact abs_makeUndefined _
    · rfl

/-- **The same number of passes** leads to the same slots. -/
theorem abs_iterate {pass : FlowM FlowValue} {pass' : DataFlow.FlowM Value Value}
    (h : Simulates l pass pass') (fuel : ℕ) (s : State) :
    Confluence.iterate pass' fuel s.abs = (iterate pass fuel s).map State.abs := by
  induction fuel generalizing s with
  | zero =>
    unfold Confluence.iterate iterate
    cases hc : s.changed
    · rw [if_neg (by rw [show s.abs.changed = s.changed from rfl, hc]; exact Bool.false_ne_true)]
      rfl
    · rw [if_pos (show s.abs.changed = true from hc)]
      rfl
  | succ fuel ih =>
    unfold Confluence.iterate iterate
    cases hc : s.changed
    · rw [if_neg (by rw [show s.abs.changed = s.changed from rfl, hc]; exact Bool.false_ne_true)]
      rfl
    · rw [if_pos (show s.abs.changed = true from hc),
        show ({ s.abs with changed := false } : Confluence.State _ _ _) =
          State.abs { s with changed := false } from rfl, h.run, ih]
      rfl

/-- **An analysis of flow values** ends with as much fuel, in the same state
but for the stale bits. -/
theorem abs_iterateDataFlow {root : Node} (hd : Drops trans trans' root.walkTree) (fuel : ℕ)
    (s : State) :
    DataFlow.iterateDataFlow trans' .Forwards init.abs fuel root s.abs =
      (iterateDataFlow trans init fuel root s).map State.abs := by
  have hfold : ∀ (ns : List Node) (s : State),
      ns.foldl DataFlow.initConfluencePoints s.abs =
        (ns.foldl initConfluencePoints s).abs := by
    intro ns
    induction ns with
    | nil => exact fun s => rfl
    | cons n ns ih =>
      intro s
      rw [List.foldl_cons, List.foldl_cons, ← abs_initConfluencePoints, ih]
  have hpass : ∀ final, Simulates root.walkTree (dataFlow trans final init root init)
      (DataFlow.dataFlow trans' .Forwards init.abs root init.abs) := fun final =>
    sim_dataFlow hd root (List.Subset.refl _) init
  unfold DataFlow.iterateDataFlow iterateDataFlow
  rw [show ({ s.abs with changed := false } : Confluence.State _ _ _) =
    State.abs { s with changed := false } from rfl, hfold]
  dsimp only
  rw [abs_iterate (hpass false)]
  cases iterate (dataFlow trans false init root init) fuel
    (root.walkTree.foldl initConfluencePoints { s with changed := false }) with
  | none => rfl
  | some t =>
    refine congrArg some ?_
    show (DataFlow.dataFlow trans' .Forwards init.abs root init.abs
      (State.abs { t with applied := [] })).2 = _
    rw [(hpass true).run]

/-- The final pass applies the transfer function to nodes of the tree. -/
theorem applied_mem {root : Node} (hd : Drops trans trans' root.walkTree) {fuel : ℕ}
    {s s' : State} (h : iterateDataFlow trans init fuel root s = some s') :
    ∀ a ∈ s'.applied, a.1.1 ∈ root.walkTree := by
  unfold iterateDataFlow at h
  obtain ⟨t, -, ht⟩ := Option.bind_eq_some_iff.mp h
  rw [← Option.some.inj ht]
  intro a ha
  exact ((sim_dataFlow hd root (List.Subset.refl _) init).applied _ a ha).resolve_left nofun

end

end Cilk.SyncFlow
