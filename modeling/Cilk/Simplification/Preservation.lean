import Cilk.Simplification.Meaning
import Mathlib.Tactic.Common

/-!
# Simplifying keeps the meaning, if what is cast may be evaluated twice

With enough fuel every checked expression is simplified, and what results is
simple. For `(T)Y += Z` the simplifier evaluates `Y` twice, since
`RemoveSideEffectsNode` is a stub. So the simplified expression does what the
expression does, with repetitions of such operands, and it means the same exactly
if none of them has a side effect where it is evaluated.
-/

namespace Cilk.Simplification

open Cilk.SideEffects (OpType IsAssignmentOp IsIncDecOp)

/-! ## Runs with enough fuel -/

/-- With enough fuel the node is simplified to the other one. -/
def Reaches (n m : Node) : Prop := ∃ k, ∀ fuel ≥ k, SimplifyNode fuel n = some m

/-- `Reaches`, of a list. -/
def ListReaches (ns ms : Nodes) : Prop := ∃ k, ∀ fuel ≥ k, SimplifyList fuel ns = some ms

/-- One call more. -/
theorem Reaches.of_succ {n m : Node} (k : ℕ) (h : ∀ fuel ≥ k, SimplifyNode (fuel + 1) n = some m) :
    Reaches n m := by
  refine ⟨k + 1, fun fuel hfuel => ?_⟩
  obtain ⟨fuel, rfl⟩ := Nat.exists_eq_add_of_le' (Nat.le_of_add_left_le hfuel)
  exact h fuel (by omega)

/-- Enough fuel after the first step is enough. -/
theorem ListReaches.of_succ {ns ms : Nodes} (k : ℕ)
    (h : ∀ fuel ≥ k, SimplifyList (fuel + 1) ns = some ms) : ListReaches ns ms := by
  refine ⟨k + 1, fun fuel hfuel => ?_⟩
  obtain ⟨fuel, rfl⟩ := Nat.exists_eq_add_of_le' (Nat.le_of_add_left_le hfuel)
  exact h fuel (by omega)

section Rules

variable {n m l l' r r' e e' : Node} {ns ms : Nodes} {op : OpType} {type : Option Ty}

/-- The operands first, and then the node itself. -/
theorem Reaches.Binop (hl : Reaches l l') (hr : Reaches r r')
    (h : ∃ k, ∀ fuel ≥ k, SimplifyBinop (SimplifyNode fuel) op l' r' type = some e') :
    Reaches (.Binop op l r type) e' := by
  obtain ⟨k₁, hl⟩ := hl
  obtain ⟨k₂, hr⟩ := hr
  obtain ⟨k₃, h⟩ := h
  refine .of_succ (k₁ + k₂ + k₃) fun fuel hfuel => ?_
  show ((SimplifyNode fuel l).bind fun left => (SimplifyNode fuel r).bind fun right =>
    SimplifyBinop (SimplifyNode fuel) op left right type) = _
  rw [hl fuel (by omega), hr fuel (by omega)]
  exact h fuel (by omega)

/-- What becomes of a binary node depends on what becomes of its operands. -/
theorem Reaches.operands (hl : Reaches l l) (hr : Reaches r r)
    (h : Reaches (.Binop op l r type) e') :
    ∃ k, ∀ fuel ≥ k, SimplifyBinop (SimplifyNode fuel) op l r type = some e' := by
  obtain ⟨k₁, hl⟩ := hl
  obtain ⟨k₂, hr⟩ := hr
  obtain ⟨k₃, h⟩ := h
  refine ⟨k₁ + k₂ + k₃, fun fuel hfuel => ?_⟩
  have h : ((SimplifyNode fuel l).bind fun left => (SimplifyNode fuel r).bind fun right =>
    SimplifyBinop (SimplifyNode fuel) op left right type) = some e' := h (fuel + 1) (by omega)
  rw [hl fuel (by omega), hr fuel (by omega)] at h
  exact h

/-- The operand first, and then the node itself. -/
theorem Reaches.Unary (he : Reaches e e')
    (h : ∃ k, ∀ fuel ≥ k, SimplifyUnary (SimplifyNode fuel) op e' type = some m) :
    Reaches (.Unary op e type) m := by
  obtain ⟨k₁, he⟩ := he
  obtain ⟨k₂, h⟩ := h
  refine .of_succ (k₁ + k₂) fun fuel hfuel => ?_
  show (SimplifyNode fuel e).bind _ = _
  rw [he fuel (by omega)]
  exact h fuel (by omega)

/-- Where the operand is simple already, what is left is the node itself. -/
theorem Reaches.operand (he : Reaches e e) (h : Reaches (.Unary op e type) m) :
    ∃ k, ∀ fuel ≥ k, SimplifyUnary (SimplifyNode fuel) op e type = some m := by
  obtain ⟨k₁, he⟩ := he
  obtain ⟨k₂, h⟩ := h
  refine ⟨k₁ + k₂, fun fuel hfuel => ?_⟩
  have h : ((SimplifyNode fuel e).bind fun expr =>
    SimplifyUnary (SimplifyNode fuel) op expr type) = some m := h (fuel + 1) (by omega)
  rw [he fuel (by omega)] at h
  exact h

theorem Reaches.Cast (T : Ty) (he : Reaches e e') : Reaches (.Cast T e) (.Cast T e') := by
  obtain ⟨k, he⟩ := he
  refine .of_succ k fun fuel hfuel => ?_
  show (SimplifyNode fuel e).map _ = _
  rw [he fuel hfuel]
  rfl

theorem Reaches.ImplicitCast (T : Ty) (he : Reaches e e') :
    Reaches (.ImplicitCast T e) (.ImplicitCast T e') := by
  obtain ⟨k, he⟩ := he
  refine .of_succ k fun fuel hfuel => ?_
  show (SimplifyNode fuel e).map _ = _
  rw [he fuel hfuel]
  rfl

theorem Reaches.Constructor (T : Ty) (he : Reaches e e') :
    Reaches (.Constructor T e) (.Constructor T e') := by
  obtain ⟨k, he⟩ := he
  refine .of_succ k fun fuel hfuel => ?_
  show (SimplifyNode fuel e).map _ = _
  rw [he fuel hfuel]
  rfl

theorem Reaches.Initializer (hns : ListReaches ns ms) :
    Reaches (.Initializer ns) (.Initializer ms) := by
  obtain ⟨k, hns⟩ := hns
  refine .of_succ k fun fuel hfuel => ?_
  show (SimplifyList fuel ns).map _ = _
  rw [hns fuel hfuel]
  rfl

theorem Reaches.Decl (name : String) (T : Ty) (he : Reaches e e') :
    Reaches (.Decl name T e) (.Decl name T e') := by
  obtain ⟨k, he⟩ := he
  refine .of_succ k fun fuel hfuel => ?_
  show (SimplifyNode fuel e).map _ = _
  rw [he fuel hfuel]
  rfl

theorem Reaches.BuiltinVaArg (T : Ty) (he : Reaches e e') :
    Reaches (.BuiltinVaArg e T) (.BuiltinVaArg e' T) := by
  obtain ⟨k, he⟩ := he
  refine .of_succ k fun fuel hfuel => ?_
  show (SimplifyNode fuel e).map _ = _
  rw [he fuel hfuel]
  rfl

theorem Reaches.Block {ns' ms' : Nodes} (hns : ListReaches ns ms) (hns' : ListReaches ns' ms') :
    Reaches (.Block ns ns' type) (.Block ms ms' type) := by
  obtain ⟨k₁, hns⟩ := hns
  obtain ⟨k₂, hns'⟩ := hns'
  refine .of_succ (k₁ + k₂) fun fuel hfuel => ?_
  show ((SimplifyList fuel ns).bind fun decl =>
    (SimplifyList fuel ns').map fun stmts => Node.Block decl stmts type) = _
  rw [hns fuel (by omega), hns' fuel (by omega)]
  rfl

theorem Reaches.Comma (hns : ListReaches ns ms) (he : Reaches e e') :
    Reaches (.Comma ns e) (.Comma ms e') := by
  obtain ⟨k₁, hns⟩ := hns
  obtain ⟨k₂, he⟩ := he
  refine .of_succ (k₁ + k₂) fun fuel hfuel => ?_
  show ((SimplifyList fuel ns).bind fun before => (SimplifyNode fuel e).map (Node.Comma before)) = _
  rw [hns fuel (by omega), he fuel (by omega)]
  rfl

theorem Reaches.Ternary (hn : Reaches n m) (hl : Reaches l l') (hr : Reaches r r') :
    Reaches (.Ternary n l r type) (.Ternary m l' r' type) := by
  obtain ⟨k₁, hn⟩ := hn
  obtain ⟨k₂, hl⟩ := hl
  obtain ⟨k₃, hr⟩ := hr
  refine .of_succ (k₁ + k₂ + k₃) fun fuel hfuel => ?_
  show ((SimplifyNode fuel n).bind fun cond => (SimplifyNode fuel l).bind fun true_ =>
    (SimplifyNode fuel r).map fun false_ =>
      Node.Ternary cond true_ false_ type) = _
  rw [hn fuel (by omega), hl fuel (by omega), hr fuel (by omega)]
  rfl

theorem Reaches.Array (he : Reaches e e') (hns : ListReaches ns ms) :
    Reaches (.Array e ns type) (.Array e' ms type) := by
  obtain ⟨k₁, he⟩ := he
  obtain ⟨k₂, hns⟩ := hns
  refine .of_succ (k₁ + k₂) fun fuel hfuel => ?_
  show ((SimplifyNode fuel e).bind fun name =>
    (SimplifyList fuel ns).map fun dims => Node.Array name dims type) = _
  rw [he fuel (by omega), hns fuel (by omega)]
  rfl

theorem Reaches.Call (he : Reaches e e') (hns : ListReaches ns ms) :
    Reaches (.Call e ns) (.Call e' ms) := by
  obtain ⟨k₁, he⟩ := he
  obtain ⟨k₂, hns⟩ := hns
  refine .of_succ (k₁ + k₂) fun fuel hfuel => ?_
  show ((SimplifyNode fuel e).bind fun name => (SimplifyList fuel ns).map (Node.Call name)) = _
  rw [he fuel (by omega), hns fuel (by omega)]
  rfl

/-- The head first, and then the tail. -/
theorem ListReaches.cons (he : Reaches e e') (hns : ListReaches ns ms) :
    ListReaches (.cons e ns) (.cons e' ms) := by
  obtain ⟨k₁, he⟩ := he
  obtain ⟨k₂, hns⟩ := hns
  refine .of_succ (k₁ + k₂) fun fuel hfuel => ?_
  show ((SimplifyNode fuel e).bind fun head => (SimplifyList fuel ns).map (Nodes.cons head)) = _
  rw [he fuel (by omega), hns fuel (by omega)]
  rfl

end Rules

/-- Nothing is done to a node that is neither `->` nor an assignment to a comma
or a cast. -/
theorem SimplifyBinop_simple (again : Node → Option Node) {op : OpType} {left right : Node}
    (type : Option Ty) (harrow : op ≠ .ARROW)
    (hassign : IsAssignmentOp op = true → left.isComma = false ∧ left.isCast = false) :
    SimplifyBinop again op left right type = some (.Binop op left right type) := by
  unfold SimplifyBinop
  by_cases hop : IsAssignmentOp op = true
  · obtain ⟨hcomma, hcast⟩ := hassign hop
    rw [if_pos hop]
    cases left with
    | Comma before last => cases hcomma
    | Cast T Y => cases hcast
    | _ => rfl
  · rw [if_neg hop, if_neg harrow]

/-- Nothing is done to a node whose operand is no comma. -/
theorem SimplifyUnary_simple (again : Node → Option Node) {op : OpType} {expr : Node}
    (type : Option Ty) (h : IsIncDecOp op = true ∨ op = .ADDRESS → expr.isComma = false) :
    SimplifyUnary again op expr type = some (.Unary op expr type) := by
  unfold SimplifyUnary
  by_cases hop : IsIncDecOp op = true ∨ op = .ADDRESS
  · rw [if_pos hop]
    have hcomma := h hop
    cases expr with
    | Comma before last => cases hcomma
    | _ => rfl
  · rw [if_neg hop]

mutual

/-- **What is simple stays as it is.** -/
theorem reaches_simple : ∀ n : Node, n.Simple → Reaches n n
  | .NULL, _ | .Type _, _ | .Const _ _, _ | .Id _ _, _ => .of_succ 0 fun _ _ => rfl
  | .Binop _ left right type, ⟨hl, hr, harrow, hassign⟩ =>
    .Binop (reaches_simple left hl) (reaches_simple right hr)
      ⟨0, fun _ _ => SimplifyBinop_simple _ type harrow hassign⟩
  | .Unary _ expr type, ⟨he, h⟩ =>
    .Unary (reaches_simple expr he) ⟨0, fun _ _ => SimplifyUnary_simple _ type h⟩
  | .Cast type expr, he => .Cast type (reaches_simple expr he)
  | .ImplicitCast type expr, he => .ImplicitCast type (reaches_simple expr he)
  | .Constructor type expr, he => .Constructor type (reaches_simple expr he)
  | .Initializer exprs, he => .Initializer (listReaches_simple exprs he)
  | .Block decl stmts _, ⟨hd, hs⟩ => .Block (listReaches_simple decl hd) (listReaches_simple stmts hs)
  | .Decl name type init, hi => .Decl name type (reaches_simple init hi)
  | .BuiltinVaArg expr type, he => .BuiltinVaArg type (reaches_simple expr he)
  | .Comma before last, ⟨hb, hl⟩ =>
    .Comma (listReaches_simple before hb) (reaches_simple last hl)
  | .Ternary cond true_ false_ _, ⟨hc, ht, hf⟩ =>
    .Ternary (reaches_simple cond hc) (reaches_simple true_ ht) (reaches_simple false_ hf)
  | .Array name dims _, ⟨hn, hd⟩ => .Array (reaches_simple name hn) (listReaches_simple dims hd)
  | .Call name args, ⟨hn, ha⟩ => .Call (reaches_simple name hn) (listReaches_simple args ha)

/-- A simple list stays as it is. -/
theorem listReaches_simple : ∀ ns : Nodes, ns.Simple → ListReaches ns ns
  | .nil, _ => .of_succ 0 fun _ _ => rfl
  | .cons head tail, ⟨hh, ht⟩ => .cons (reaches_simple head hh) (listReaches_simple tail ht)

end

/-! ## Repetitions in the operators -/

section Repetitions

variable {V : Values} {type : Ty} {l l' r r' : V.Program V.Place}

open Values MemoryProgram

/-- One evaluation does what the other one does, up to repetitions. -/
def Mimics (V : Values) {α : Type} (p q : V.Program α) : Prop := Repeats V.operand p q

/-- Reading a place mimics itself. -/
theorem mimics_read (place : V.Place) : Mimics V place.read place.read := by
  induction place with
  | object type volatile o =>
    cases volatile
    · exact .read _ fun _ => .ret _
    · exact .act _ fun _ => .ret _
  | value v => exact .ret _
  | literal type v => exact .ret _
  | cast type place ih => exact .bind ih fun _ => .ret _

/-- So does writing to it. -/
theorem mimics_write (place : V.Place) (v : V.Value) :
    Mimics V (place.write v) (place.write v) := by
  induction place generalizing v with
  | object type volatile o => exact .act _ fun _ => .ret _
  | value w => exact .ret _
  | literal type w => exact .ret _
  | cast type place ih => exact .bind (ih _) fun _ => .ret _

/-- The operations on programs keep what mimics. -/
theorem Mimics.value (hl : Mimics V l l') : Mimics V (value l) (value l') :=
  .bind hl mimics_read

theorem Mimics.unary (f : V.Value → V.Value) (hl : Mimics V l l') :
    Mimics V (unary f l) (unary f l') := .bind hl.value fun _ => .ret _

theorem Mimics.binary (f : V.Value → V.Value → V.Value) (hl : Mimics V l l')
    (hr : Mimics V r r') : Mimics V (binary f l r) (binary f l' r') :=
  .bind hl.value fun _ => .bind hr.value fun _ => .ret _

/-- A choice keeps it where both its branches do. -/
theorem Mimics.choose {t t' f f' : V.Value → V.Program V.Value} (hl : Mimics V l l')
    (ht : ∀ v, Mimics V (t v) (t' v)) (hf : ∀ v, Mimics V (f v) (f' v)) :
    Mimics V (choose l t f) (choose l' t' f') := by
  refine .bind hl.value fun v => .bind ?_ fun _ => .ret _
  cases V.truth v
  · exact hf v
  · exact ht v

theorem Mimics.truthOf (hl : Mimics V l l') : Mimics V (truthOf l) (truthOf l') :=
  .bind hl.value fun _ => .ret _

/-- An assignment keeps it: the place, the value, and then the store. -/
theorem Mimics.assign (hl : Mimics V l l') (hr : Mimics V r r') :
    Mimics V (assign l r) (assign l' r') :=
  .bind hl fun _ => .bind hr.value fun _ => .bind (mimics_write _ _) fun _ => .ret _

/-- A compound assignment to a place, behind the evaluation of its left operand. -/
theorem mimics_compound_at (f : V.Value → V.Value → V.Value) (hr : Mimics V r r')
    (place : V.Place) :
    Mimics V (place.read >>= fun old => Values.value r >>= fun v =>
        place.write (f old v) >>= fun w => result w)
      (place.read >>= fun old => Values.value r' >>= fun v =>
        place.write (f old v) >>= fun w => result w) :=
  .bind (mimics_read _) fun _ => .bind hr.value fun _ => .bind (mimics_write _ _) fun _ => .ret _

/-- A compound assignment reads its place once. -/
theorem Mimics.compound (f : V.Value → V.Value → V.Value) (hl : Mimics V l l')
    (hr : Mimics V r r') : Mimics V (compound f l r) (compound f l' r') :=
  .bind hl (mimics_compound_at f hr)

/-- **What is cast is evaluated twice.** -/
theorem Mimics.twice {Y : Node} (f : V.Value → V.Value → V.Value) (T : Ty)
    (hl : Mimics V (V.operand Y) l') (hr : Mimics V r r') :
    Mimics V (Values.compound f (note Y (Values.cast T (V.operand Y))) r)
      (Values.assign (Values.cast T l') (Values.binary f (Values.cast T l') r')) := by
  have hbefore : Values.compound f (note Y (Values.cast T (V.operand Y))) r
      = note Y (V.operand Y >>= fun place => (place.castTo T).read >>= fun old =>
          Values.value r >>= fun v => (place.castTo T).write (f old v) >>= fun w => result w) := by
    unfold Values.compound Values.cast
    simp only [note_bind, bind_assoc, ret_bind]
  have hafter : Values.assign (Values.cast T l') (Values.binary f (Values.cast T l') r')
      = l' >>= fun place => l' >>= fun again => (again.castTo T).read >>= fun old =>
          Values.value r' >>= fun v => (place.castTo T).write (f old v) >>= fun w => result w := by
    unfold Values.assign Values.binary Values.value Values.cast result
    simp only [bind_assoc, ret_bind]
    rfl
  rw [hbefore, hafter]
  exact Repeats.twice hl fun place => mimics_compound_at f hr (place.castTo T)

theorem Mimics.incDec (op : OpType) (hl : Mimics V l l') : Mimics V (incDec op l) (incDec op l') :=
  .bind hl fun _ => .bind (mimics_read _) fun _ => .bind (mimics_write _ _) fun _ => .ret _

theorem Mimics.cast (T : Ty) (hl : Mimics V l l') : Mimics V (Values.cast T l) (Values.cast T l') :=
  .bind hl fun _ => .ret _

theorem Mimics.addressOf (hl : Mimics V l l') : Mimics V (addressOf l) (addressOf l') :=
  .bind hl fun _ => .ret _

theorem Mimics.indirect (t : Option Ty) (hl : Mimics V l l') :
    Mimics V (indirect t l) (indirect t l') := .bind hl.value fun _ => .ret _

theorem Mimics.dot (t : Option Ty) (text : String) (hl : Mimics V l l') :
    Mimics V (dot t l text) (dot t l' text) := .bind hl fun _ => .ret _

theorem Mimics.arrow (t : Option Ty) (text : String) (hl : Mimics V l l') :
    Mimics V (arrow t l text) (arrow t l' text) := .bind hl.value fun _ => .ret _

theorem Mimics.vaArg (T : Ty) (hl : Mimics V l l') : Mimics V (vaArg T l) (vaArg T l') :=
  .bind hl fun _ => .act _ fun _ => .ret _

theorem Mimics.compoundLiteral (T : Ty) (hl : Mimics V l l') :
    Mimics V (compoundLiteral T l) (compoundLiteral T l') := .bind hl.value fun _ => .ret _

theorem Mimics.declare (name : String) (T : Ty) (hl : Mimics V l l') :
    Mimics V (declare name T l) (declare name T l') :=
  .bind hl.value fun _ => .act _ fun _ => .ret _

section Lists

variable {ls ls' rs rs' : V.Program (List V.Value)}

theorem Mimics.element (t : Option Ty) (hl : Mimics V l l') (hls : Mimics V ls ls') :
    Mimics V (element t l ls) (element t l' ls') :=
  .bind hl.value fun _ => .bind hls fun _ => .ret _

theorem Mimics.apply (hl : Mimics V l l') (hls : Mimics V ls ls') :
    Mimics V (apply l ls) (apply l' ls') :=
  .bind hl.value fun _ => .bind hls fun _ => .act _ fun _ => .ret _

theorem Mimics.initializer (hls : Mimics V ls ls') : Mimics V (initializer ls) (initializer ls') :=
  .bind hls fun _ => .ret _

theorem Mimics.block (hls : Mimics V ls ls') (hrs : Mimics V rs rs') :
    Mimics V (block ls rs) (block ls' rs') := .bind hls fun _ => .bind hrs fun _ => .ret _

end Lists

end Repetitions

/-! ## The programs of the operators -/

variable {V : Values}

/-- What a compound assignment means. -/
theorem eval_assignment {op op' : OpType} (h : OpOfAssignmentOp op = some op') (left right : Node)
    (type : Option Ty) (assigned : Bool) :
    V.eval (.Binop op left right type) assigned
      = Values.compound (V.binop op') (V.eval left true) (V.eval right false) := by
  cases op <;> cases h <;> rfl

/-- What `=` means. -/
theorem eval_asgn (left right : Node) (type : Option Ty) (assigned : Bool) :
    V.eval (.Binop .asgn left right type) assigned
      = Values.assign (V.eval left false) (V.eval right false) := rfl

/-- What a cast means where nothing is assigned to it. -/
theorem eval_Cast (T : Ty) (expr : Node) :
    V.eval (.Cast T expr) false = Values.cast T.base (V.eval expr false) := rfl

/-- The operator of a compound assignment computes with two values. -/
theorem eval_operator {op op' : OpType} (h : OpOfAssignmentOp op = some op') (left right : Node)
    (type : Option Ty) :
    V.eval (.Binop op' left right type) false
      = Values.binary (V.binop op') (V.eval left false) (V.eval right false) := by
  cases op <;> cases h <;> rfl

/-! ## Lvalues with their types -/

/-- An lvalue whose type is recorded, at every cast and comma. -/
def Node.IsPlace : Node → Prop
  | .Id _ type | .Unary .INDIR _ type | .Array _ _ type | .Binop .dot _ _ type
  | .Binop .ARROW _ _ type => type.isSome = true
  | .Comma _ last => last.IsPlace
  | .Constructor .. => True
  | .Cast _ expr => expr.IsPlace
  | _ => False

/-- An lvalue has a type, and its evaluation leads to a place of this type. -/
theorem Node.IsPlace.leadsTo : ∀ {n : Node}, n.IsPlace →
    ∃ type, NodeDataType n = some type ∧ ∀ V : Values, Values.LeadsTo type (V.eval n false)
  | .Id _ (some type), _ => ⟨type.base, rfl, fun _ => Values.leadsTo_ret rfl⟩
  | .Unary .INDIR _ (some type), _ =>
    ⟨type.base, rfl, fun _ => Values.leadsTo_bind fun _ => Values.leadsTo_ret rfl⟩
  | .Array _ _ (some type), _ => ⟨type.base, rfl, fun _ => Values.leadsTo_bind fun _ =>
      Values.leadsTo_bind fun _ => Values.leadsTo_ret rfl⟩
  | .Binop .dot _ _ (some type), _ =>
    ⟨type.base, rfl, fun _ => Values.leadsTo_bind fun _ => Values.leadsTo_ret rfl⟩
  | .Binop .ARROW _ _ (some type), _ =>
    ⟨type.base, rfl, fun _ => Values.leadsTo_bind fun _ => Values.leadsTo_ret rfl⟩
  | .Comma before last, h => by
    obtain ⟨type, htype, hleads⟩ := Node.IsPlace.leadsTo (n := last) h
    exact ⟨type, htype, fun V => Values.leadsTo_bind fun _ => hleads V⟩
  | .Constructor type _, _ =>
    ⟨type.base, rfl, fun _ => Values.leadsTo_bind fun _ => Values.leadsTo_ret rfl⟩
  | .Cast T expr, h => by
    obtain ⟨type, htype, hleads⟩ := Node.IsPlace.leadsTo (n := expr) h
    exact ⟨T.base, rfl, fun V => Values.leadsTo_cast T.base (hleads V)⟩

/-- The lvalues of a checked expression have their types. -/
theorem Node.Checked.isPlace : ∀ {n : Node}, n.Checked → IsLvalue n = true → n.IsPlace
  | .Id _ _, _, h => h
  | .Unary .INDIR _ _, ⟨_, htype, _⟩, _ => htype
  | .Array _ _ _, ⟨_, _, htype⟩, _ => htype
  | .Binop .dot _ _ _, ⟨_, _, htype, _⟩, _ => htype
  | .Binop .ARROW _ _ _, ⟨_, _, htype, _⟩, _ => htype
  | .Comma _ last, ⟨_, hlast⟩, h => Node.Checked.isPlace (n := last) hlast h
  | .Constructor _ _, _, _ => trivial
  | .Cast _ expr, hexpr, h => Node.Checked.isPlace (n := expr) hexpr h

/-- The type behind the names has no name. -/
theorem Ty.base_base : ∀ type : Ty, type.base.base = type.base
  | .Tdef _ _ type => Ty.base_base type
  | .Prim _ _ | .Ptr _ _ | .Adcl _ | .Fdcl _ | .Sdcl _ _ | .Udcl _ _ | .Edcl _ _ => rfl

/-- Nor has the type that a function returns. -/
theorem Ty.base_of_returned : ∀ (type : Ty) {t : Ty}, type.returned = some t → t.base = t
  | .Tdef _ _ type, _, h => Ty.base_of_returned type h
  | .Ptr _ type, _, h => Ty.base_of_returned type h
  | .Fdcl returns, _, rfl => Ty.base_base returns

theorem base_of_map {type : Option Ty} {t : Ty} (h : type.map Ty.base = some t) : t.base = t := by
  cases type with
  | none => cases h
  | some type =>
    cases h
    exact Ty.base_base type

/-- `NodeDataType` gives the type behind the names. -/
theorem base_NodeDataType : ∀ {n : Node} {t : Ty}, NodeDataType n = some t → t.base = t
  | .Type type, _, rfl | .Const type _, _, rfl | .Cast type _, _, rfl
  | .ImplicitCast type _, _, rfl | .Constructor type _, _, rfl | .Decl _ type _, _, rfl
  | .BuiltinVaArg _ type, _, rfl => Ty.base_base type
  | .Id _ _, _, h | .Binop _ _ _ _, _, h | .Unary _ _ _, _, h | .Ternary _ _ _ _, _, h
  | .Array _ _ _, _, h | .Block _ _ _, _, h => base_of_map h
  | .Comma _ last, _, h => base_NodeDataType (n := last) h
  | .Call name _, _, h => by
    obtain ⟨t, -, h⟩ := Option.bind_eq_some_iff.mp h
    exact Ty.base_of_returned _ h

/-- Nor has what `NodeDataType` finds. -/
theorem map_base_NodeDataType (n : Node) : (NodeDataType n).map Ty.base = NodeDataType n := by
  cases h : NodeDataType n with
  | none => rfl
  | some t => exact congrArg some (base_NodeDataType h)

/-! ## Assignments -/

/-- **What a compound assignment becomes**: what is cast on its left is evaluated
twice. -/
def Node.reassigned (V : Values) (f : V.Value → V.Value → V.Value) (r : V.Program V.Place) :
    Node → V.Program V.Place
  | .Comma before last => V.evalList before >>= fun _ => last.reassigned V f r
  | .Cast T Y =>
    Values.assign (Values.cast T.base (V.eval Y false))
      (Values.binary f (Values.cast T.base (V.eval Y false)) r)
  | n => Values.compound f (V.eval n false) r

/-- Without a comma or a cast it is the node itself that is assigned to. -/
theorem reassigned_plain {n : Node} (hcomma : n.isComma = false) (hcast : n.isCast = false)
    (f : V.Value → V.Value → V.Value) (r : V.Program V.Place) :
    n.reassigned V f r = Values.compound f (V.eval n false) r := by
  cases n with
  | Comma before last => cases hcomma
  | Cast T Y => cases hcast
  | _ => rfl

/-- And it means the same whether it is assigned to or not. -/
theorem eval_plain {n : Node} (hcomma : n.isComma = false) (hcast : n.isCast = false) :
    V.eval n true = V.eval n false := by
  cases n with
  | Comma before last => cases hcomma
  | Cast T Y => cases hcast
  | _ => rfl

/-- What a simplified assignment of simple operands has. -/
structure Assigned (op : OpType) (l r : Node) (type : Option Ty) (m : Node) : Prop where
  reaches : Reaches (.Binop op l r type) m
  simple : m.Simple
  typed : type = NodeDataType l → NodeDataType m = NodeDataType l
  leaf : m.text = "" ∧ m.isNull = false
  same : op = .asgn → ∀ V : Values,
    V.eval m false = Values.assign (V.eval l false) (V.eval r false)
  reassigned : ∀ op', OpOfAssignmentOp op = some op' → ∀ V : Values,
    V.eval m false = l.reassigned V (V.binop op') (V.eval r false)

/-- An assignment to anything else is left alone. -/
theorem Assigned.stays {op : OpType} (hop : IsAssignmentOp op = true) {l r : Node} (hl : l.Simple)
    (hr : r.Simple) (hcomma : l.isComma = false) (hcast : l.isCast = false) (type : Option Ty) :
    Assigned op l r type (.Binop op l r type) := by
  have hsimple : (Node.Binop op l r type).Simple :=
    ⟨hl, hr, fun h => absurd (h ▸ hop) nofun, fun _ => ⟨hcomma, hcast⟩⟩
  refine ⟨reaches_simple _ hsimple, hsimple, fun htype => ?_, ⟨rfl, rfl⟩, ?_, fun op' hop' V => ?_⟩
  · show type.map Ty.base = NodeDataType l
    rw [htype, map_base_NodeDataType]
  · rintro rfl V
    rfl
  · rw [eval_assignment hop', reassigned_plain hcomma hcast, eval_plain hcomma hcast]

/-- `(a, ..., x) op= z`: the assignment goes to the last. -/
theorem Assigned.comma {op : OpType} (hop : IsAssignmentOp op = true) {before : Nodes}
    {last r m : Node} {type : Option Ty} (hb : before.Simple) (hl : last.Simple) (hr : r.Simple)
    (h : Assigned op last r type m) : Assigned op (.Comma before last) r type (.Comma before m) := by
  refine ⟨?_, ⟨hb, h.simple⟩, h.typed, ⟨rfl, rfl⟩, fun hasgn V => ?_, fun op' hop' V => ?_⟩
  · refine .Binop (reaches_simple (.Comma before last) ⟨hb, hl⟩) (reaches_simple r hr) ?_
    obtain ⟨k, hreaches⟩ := Reaches.Comma (listReaches_simple before hb) h.reaches
    refine ⟨k, fun fuel hfuel => ?_⟩
    unfold SimplifyBinop
    rw [if_pos hop]
    exact hreaches fuel hfuel
  · show V.evalList before >>= (fun _ => V.eval m false)
      = Values.assign (V.evalList before >>= fun _ => V.eval last false) _
    rw [h.same hasgn V]
    unfold Values.assign
    rw [MemoryProgram.bind_assoc]
  · show V.evalList before >>= (fun _ => V.eval m false) = _
    rw [h.reassigned op' hop' V]
    rfl

/-- The step from `(T)Y = Z` to `(T)(Y = (typeofY)(T)Z)`. -/
theorem Assigned.cast {T t : Ty} {Y r m : Node} {type : Option Ty} (hY : Y.Simple)
    (hr : r.Simple) (ht : NodeDataType Y = some t)
    (hleads : ∀ V : Values, Values.LeadsTo t (V.eval Y false))
    (h : Assigned .asgn Y (.Cast t (.Cast T r)) none m) :
    Assigned .asgn (.Cast T Y) r type (.Cast T m) := by
  refine ⟨?_, h.simple, fun _ => rfl, ⟨rfl, rfl⟩, fun _ V => ?_, fun op' hop' => ?_⟩
  · refine .Binop (reaches_simple (.Cast T Y) hY) (reaches_simple r hr) ?_
    obtain ⟨k, hreaches⟩ := Reaches.Cast T h.reaches
    refine ⟨k, fun fuel hfuel => ?_⟩
    show ((NodeDataType Y).bind fun typeofY =>
      (castAssignment .asgn T typeofY Y r).bind (SimplifyNode fuel)) = _
    rw [ht]
    exact hreaches fuel hfuel
  · rw [eval_Cast, h.same rfl V, eval_Cast, eval_Cast, eval_Cast, base_NodeDataType ht]
    exact (Values.assign_cast T.base (hleads V)).symm
  · cases hop'

/-- Every compound assignment has its operator. -/
theorem exists_operator {op : OpType} (hop : IsAssignmentOp op = true) (hasgn : op ≠ .asgn) :
    ∃ op', OpOfAssignmentOp op = some op' := by
  cases op <;> first | exact ⟨_, rfl⟩ | exact absurd rfl hasgn | cases hop

/-- That operator is no assignment. -/
theorem operator_plain {op op' : OpType} (h : OpOfAssignmentOp op = some op') :
    IsAssignmentOp op' = false ∧ op' ≠ .ARROW := by
  cases op <;> cases h <;> exact ⟨rfl, nofun⟩

/-- The step from `(T)Y += Z` to `(T)(Y = (typeofY)(T)((T)Y + Z))`. -/
theorem Assigned.compound {op op' : OpType} {T t : Ty} {Y r m : Node} {type : Option Ty}
    (hop : IsAssignmentOp op = true) (hasgn : op ≠ .asgn) (hop' : OpOfAssignmentOp op = some op')
    (hY : Y.Simple) (hr : r.Simple) (ht : NodeDataType Y = some t)
    (hleads : ∀ V : Values, Values.LeadsTo t (V.eval Y false))
    (h : Assigned .asgn Y (.Cast t (.Cast T (.Binop op' (.Cast T Y) r (some T)))) (some t) m) :
    Assigned op (.Cast T Y) r type (.Cast T m) := by
  refine ⟨?_, h.simple, fun _ => rfl, ⟨rfl, rfl⟩, fun h' => ?_, fun op'' hop'' V => ?_⟩
  · refine .Binop (reaches_simple (.Cast T Y) hY) (reaches_simple r hr) ?_
    obtain ⟨k, hreaches⟩ := Reaches.Cast T h.reaches
    refine ⟨k, fun fuel hfuel => ?_⟩
    unfold SimplifyBinop
    rw [if_pos hop]
    show ((NodeDataType Y).bind fun typeofY =>
      (castAssignment op T typeofY Y r).bind (SimplifyNode fuel)) = _
    rw [ht, Option.bind_some]
    unfold castAssignment
    rw [if_neg hasgn, hop']
    exact hreaches fuel hfuel
  · exact absurd h' hasgn
  · obtain rfl : op' = op'' := Option.some.inj (hop'.symm.trans hop'')
    rw [eval_Cast, h.same rfl V, eval_Cast, eval_Cast, eval_operator hop', eval_Cast,
      base_NodeDataType ht]
    exact (Values.assign_cast T.base (hleads V)).symm

/-- **Assignments become simple.** The induction is on the left operand: it loses its
casts and commas one after the other. -/
theorem exists_assigned : ∀ l : Node, l.Simple → l.IsPlace → ∀ op : OpType,
    IsAssignmentOp op = true → ∀ r : Node, r.Simple → ∀ type : Option Ty,
    ∃ m, Assigned op l r type m
  | .Comma before last, ⟨hb, hl⟩, hplace, op, hop, r, hr, type => by
    obtain ⟨m, h⟩ := exists_assigned last hl hplace op hop r hr type
    exact ⟨_, h.comma hop hb hl hr⟩
  | .Cast T Y, hY, hplace, op, hop, r, hr, type => by
    obtain ⟨t, ht, hleads⟩ := Node.IsPlace.leadsTo (n := Y) hplace
    by_cases hasgn : op = .asgn
    · obtain ⟨m, h⟩ := exists_assigned Y hY hplace .asgn rfl (.Cast t (.Cast T r)) hr none
      rw [hasgn]
      exact ⟨_, h.cast hY hr ht hleads⟩
    · obtain ⟨op', hop'⟩ := exists_operator hop hasgn
      obtain ⟨hplain, harrow⟩ := operator_plain hop'
      have hright : (Node.Cast t (.Cast T (.Binop op' (.Cast T Y) r (some T)))).Simple :=
        ⟨hY, hr, harrow, fun h => absurd (hplain.symm.trans h) nofun⟩
      obtain ⟨m, h⟩ := exists_assigned Y hY hplace .asgn rfl _ hright (some t)
      exact ⟨_, h.compound hop hasgn hop' hY hr ht hleads⟩
  | .NULL, hl, _, _, hop, _, hr, type => ⟨_, .stays hop hl hr rfl rfl type⟩
  | .Type _, hl, _, _, hop, _, hr, type => ⟨_, .stays hop hl hr rfl rfl type⟩
  | .Const _ _, hl, _, _, hop, _, hr, type => ⟨_, .stays hop hl hr rfl rfl type⟩
  | .Id _ _, hl, _, _, hop, _, hr, type => ⟨_, .stays hop hl hr rfl rfl type⟩
  | .Binop _ _ _ _, hl, _, _, hop, _, hr, type => ⟨_, .stays hop hl hr rfl rfl type⟩
  | .Unary _ _ _, hl, _, _, hop, _, hr, type => ⟨_, .stays hop hl hr rfl rfl type⟩
  | .Ternary _ _ _ _, hl, _, _, hop, _, hr, type => ⟨_, .stays hop hl hr rfl rfl type⟩
  | .Array _ _ _, hl, _, _, hop, _, hr, type => ⟨_, .stays hop hl hr rfl rfl type⟩
  | .Call _ _, hl, _, _, hop, _, hr, type => ⟨_, .stays hop hl hr rfl rfl type⟩
  | .ImplicitCast _ _, hl, _, _, hop, _, hr, type => ⟨_, .stays hop hl hr rfl rfl type⟩
  | .Constructor _ _, hl, _, _, hop, _, hr, type => ⟨_, .stays hop hl hr rfl rfl type⟩
  | .Initializer _, hl, _, _, hop, _, hr, type => ⟨_, .stays hop hl hr rfl rfl type⟩
  | .Block _ _ _, hl, _, _, hop, _, hr, type => ⟨_, .stays hop hl hr rfl rfl type⟩
  | .Decl _ _ _, hl, _, _, hop, _, hr, type => ⟨_, .stays hop hl hr rfl rfl type⟩
  | .BuiltinVaArg _ _, hl, _, _, hop, _, hr, type => ⟨_, .stays hop hl hr rfl rfl type⟩

/-! ## Increments, addresses and arrows -/

/-- What `++` and `--` mean. -/
theorem eval_incDec {op : OpType} (h : IsIncDecOp op = true) (expr : Node) (type : Option Ty) :
    V.eval (.Unary op expr type) false = Values.incDec op (V.eval expr false) := by
  cases op <;> first | rfl | cases h

/-- What `&` means. -/
theorem eval_ADDRESS (expr : Node) (type : Option Ty) :
    V.eval (.Unary .ADDRESS expr type) false = Values.addressOf (V.eval expr false) := rfl

/-- An increment and an address of a comma are those of its last operand. -/
theorem eval_Unary_Comma {op : OpType} (h : IsIncDecOp op = true ∨ op = .ADDRESS) (before : Nodes)
    (last : Node) (type : Option Ty) :
    V.eval (.Unary op (.Comma before last) type) false
      = V.evalList before >>= fun _ => V.eval (.Unary op last type) false := by
  rcases h with h | rfl
  · rw [eval_incDec h, eval_incDec h]
    exact MemoryProgram.bind_assoc _ _ _
  · exact MemoryProgram.bind_assoc _ _ _

/-- **Increments and addresses become simple.** -/
theorem exists_unary {op : OpType} (hop : IsIncDecOp op = true ∨ op = .ADDRESS)
    (type : Option Ty) : ∀ e : Node, e.Simple → ∃ m, Reaches (.Unary op e type) m ∧ m.Simple ∧
      NodeDataType m = type.map Ty.base ∧ (m.text = "" ∧ m.isNull = false) ∧
      ∀ V : Values, V.eval m false = V.eval (.Unary op e type) false := by
  intro e he
  cases hcomma : e.isComma
  case false =>
    have hsimple : (Node.Unary op e type).Simple := ⟨he, fun _ => hcomma⟩
    exact ⟨_, reaches_simple _ hsimple, hsimple, rfl, ⟨rfl, rfl⟩, fun _ => rfl⟩
  case true =>
    match e, he with
    | .Comma before last, ⟨hb, hl⟩ =>
      obtain ⟨m, hm, hsimple, htype, -, hsame⟩ := exists_unary hop type last hl
      refine ⟨.Comma before m, ?_, ⟨hb, hsimple⟩, htype, ⟨rfl, rfl⟩, fun V => ?_⟩
      · refine .Unary (reaches_simple (.Comma before last) ⟨hb, hl⟩) ?_
        obtain ⟨k, hreaches⟩ := Reaches.Comma (listReaches_simple before hb) hm
        refine ⟨k, fun fuel hfuel => ?_⟩
        unfold SimplifyUnary
        rw [if_pos hop]
        exact hreaches fuel hfuel
      · rw [eval_Unary_Comma hop, ← hsame V]
        rfl

/-- What `->` means. -/
theorem eval_ARROW (left right : Node) (type : Option Ty) :
    V.eval (.Binop .ARROW left right type) false
      = Values.arrow type (V.eval left false) right.text := rfl

/-- `(*a).b` is `a->b`. -/
theorem dot_indirect (type pointee : Option Ty) (l : V.Program V.Place) (text : String) :
    Values.dot type (Values.indirect pointee l) text = Values.arrow type l text :=
  MemoryProgram.bind_assoc _ _ _

/-- **Arrows become dots**, if they start at a pointer or at an array. -/
theorem removeArrow_spec {left : Node} {pointee : Ty} (right : Node) (type : Option Ty)
    (hl : left.Simple)
    (h : (∃ volatile, NodeDataType left = some (.Ptr volatile pointee)) ∨
      NodeDataType left = some (.Adcl pointee)) :
    ∃ from_, removeArrow left right type = some (.Binop .dot from_ right type) ∧
      from_.Simple ∧
      ∀ V : Values, V.eval (.Binop .dot from_ right type) false
        = V.eval (.Binop .ARROW left right type) false := by
  by_cases haddress : ∃ expr t, left = .Unary .ADDRESS expr t
  · obtain ⟨expr, t, rfl⟩ := haddress
    refine ⟨expr, ?_, hl.1, fun V => ?_⟩
    · unfold removeArrow
      rcases h with ⟨_, h⟩ | h <;> rw [h] <;> rfl
    · rw [eval_ARROW, eval_ADDRESS, Values.arrow_addressOf]
      rfl
  · rcases h with ⟨volatile, h⟩ | h
    · refine ⟨.Unary .INDIR left (some pointee), ?_, ⟨hl, ?_⟩, fun V => ?_⟩
      · unfold removeArrow
        rw [h, Option.map_some]
        split
        · exact absurd ⟨_, _, rfl⟩ haddress
        · rename_i heq
          cases heq
          rfl
        · rename_i heq
          cases heq
        · rename_i hno _
          exact absurd rfl (hno volatile pointee)
      · rintro (h | h) <;> cases h
      · exact dot_indirect type (some pointee) (V.eval left false) right.text
    · refine ⟨.Array left (.cons zero .nil) (some pointee), ?_, ⟨hl, trivial, trivial⟩,
        fun V => ?_⟩
      · unfold removeArrow
        rw [h, Option.map_some]
        split
        · exact absurd ⟨_, _, rfl⟩ haddress
        · rename_i heq
          cases heq
        · rename_i heq
          cases heq
          rfl
        · rename_i _ hno
          exact absurd rfl (hno pointee)
      · rw [eval_ARROW]
        exact (Values.arrow_element type (some pointee) (V.eval left false) right.text).symm

/-! ## Every expression -/

/-- What a simplified expression has in common with the expression. -/
structure Simplified (n m : Node) : Prop where
  simple : m.Simple
  typed : NodeDataType m = NodeDataType n
  place : n.IsPlace → m.IsPlace
  leaf : m.text = n.text ∧ m.isNull = n.isNull
  mimics (V : Values) : Mimics V (V.eval n false) (V.eval m false)
  /-- On the left of a compound assignment. -/
  reassigned : n.IsPlace → ∀ (V : Values) (f : V.Value → V.Value → V.Value)
    (r r' : V.Program V.Place), Mimics V r r' →
      Mimics V (Values.compound f (V.eval n true) r) (m.reassigned V f r')

/-- An assignment is no place. -/
theorem not_isPlace_assignment {op : OpType} (hop : IsAssignmentOp op = true) {l r : Node}
    {type : Option Ty} : ¬ (Node.Binop op l r type).IsPlace := by
  cases op <;> first | exact id | cases hop

/-- Neither is `++x`, nor `&x`. -/
theorem not_isPlace_unary {op : OpType} (hop : IsIncDecOp op = true ∨ op = .ADDRESS) {e : Node}
    {type : Option Ty} : ¬ (Node.Unary op e type).IsPlace := by
  rcases hop with hop | rfl
  · cases op <;> first | exact id | cases hop
  · exact id

/-- On the left of a compound assignment only casts and commas are special. -/
theorem Simplified.plain {n m : Node} (hsimple : m.Simple)
    (htyped : NodeDataType m = NodeDataType n) (hplace : n.IsPlace → m.IsPlace)
    (hleaf : m.text = n.text ∧ m.isNull = n.isNull)
    (hmimics : ∀ V : Values, Mimics V (V.eval n false) (V.eval m false))
    (hn : n.IsPlace → n.isComma = false ∧ n.isCast = false)
    (hm : n.IsPlace → m.isComma = false ∧ m.isCast = false) : Simplified n m := by
  refine ⟨hsimple, htyped, hplace, hleaf, hmimics, fun h V f r r' hr => ?_⟩
  rw [reassigned_plain (hm h).1 (hm h).2, eval_plain (hn h).1 (hn h).2]
  exact (hmimics V).compound f hr

/-- Where nothing is evaluated but a place or a value. -/
theorem Simplified.leaf' {n : Node} (h : n.Simple) (hn : n.isComma = false ∧ n.isCast = false)
    (heval : ∀ V : Values, Mimics V (V.eval n false) (V.eval n false)) : Simplified n n :=
  .plain h rfl id ⟨rfl, rfl⟩ heval (fun _ => hn) fun _ => hn

/-- **An assignment**, of which the parts are simplified and then the node. -/
theorem Simplified.assignment {op : OpType} (hop : IsAssignmentOp op = true) {l l' r r' m : Node}
    {type : Option Ty} (hl : Simplified l l') (hr : Simplified r r') (hplace : l.IsPlace)
    (htype : type = NodeDataType l) (h : Assigned op l' r' type m) :
    Simplified (.Binop op l r type) m := by
  refine .plain h.simple ?_ (fun h => absurd h (not_isPlace_assignment hop)) h.leaf (fun V => ?_)
    (fun _ => ⟨rfl, rfl⟩) fun h => absurd h (not_isPlace_assignment hop)
  · show NodeDataType m = type.map Ty.base
    rw [h.typed (htype.trans hl.typed.symm), htype, map_base_NodeDataType, hl.typed]
  · by_cases hasgn : op = .asgn
    · subst hasgn
      rw [h.same rfl V, eval_asgn]
      exact (hl.mimics V).assign (hr.mimics V)
    · obtain ⟨op', hop'⟩ := exists_operator hop hasgn
      rw [h.reassigned op' hop' V, eval_assignment hop']
      exact hl.reassigned hplace V (V.binop op') _ _ (hr.mimics V)

/-- The operators that are no assignments. -/
theorem mimics_Binop {op : OpType} (hop : IsAssignmentOp op = false) {l l' r r' : Node}
    (hl : Mimics V (V.eval l false) (V.eval l' false))
    (hr : Mimics V (V.eval r false) (V.eval r' false)) (htext : r'.text = r.text)
    (type : Option Ty) :
    Mimics V (V.eval (.Binop op l r type) false) (V.eval (.Binop op l' r' type) false) := by
  have hdot : Mimics V (Values.dot type (V.eval l false) r.text)
      (Values.dot type (V.eval l' false) r'.text) := htext ▸ hl.dot type r.text
  have harrow : Mimics V (Values.arrow type (V.eval l false) r.text)
      (Values.arrow type (V.eval l' false) r'.text) := htext ▸ hl.arrow type r.text
  cases op <;> first
    | exact absurd hop.symm Bool.false_ne_true
    | exact hl.binary _ hr
    | exact hdot
    | exact harrow
    | exact hl.choose (fun _ => hr.truthOf) fun _ => .ret _
    | exact hl.choose (fun _ => .ret _) fun _ => hr.truthOf

/-- An operator keeps what its operand keeps. -/
theorem mimics_Unary (op : OpType) {e e' : Node} (htype : NodeDataType e' = NodeDataType e)
    (he : Mimics V (V.eval e false) (V.eval e' false)) (type : Option Ty) :
    Mimics V (V.eval (.Unary op e type) false) (V.eval (.Unary op e' type) false) := by
  have hsize : ∀ op, Mimics V (Values.result (V.size op (NodeDataType e)))
      (Values.result (V.size op (NodeDataType e'))) := fun _ => htype ▸ .ret _
  cases op <;> first
    | exact he.unary _
    | exact he.incDec _
    | exact he.addressOf
    | exact he.indirect type
    | exact hsize _

mutual

/-- **Every checked expression is simplified.** -/
theorem exists_simplified : ∀ n : Node, n.Checked → ∃ m, Reaches n m ∧ Simplified n m
  | .NULL, _ => ⟨.NULL, reaches_simple _ trivial, .leaf' trivial ⟨rfl, rfl⟩ fun _ => .ret _⟩
  | .Type type, _ =>
    ⟨.Type type, reaches_simple _ trivial, .leaf' trivial ⟨rfl, rfl⟩ fun _ => .ret _⟩
  | .Const type value, _ =>
    ⟨.Const type value, reaches_simple _ trivial, .leaf' trivial ⟨rfl, rfl⟩ fun _ => .ret _⟩
  | .Id text type, _ =>
    ⟨.Id text type, reaches_simple _ trivial, .leaf' trivial ⟨rfl, rfl⟩ fun _ => .ret _⟩
  | .Binop op left right type, ⟨hleft, hright, htype, hassign, harrow⟩ => by
    obtain ⟨l, hl, sl⟩ := exists_simplified left hleft
    obtain ⟨r, hr, sr⟩ := exists_simplified right hright
    cases hop : IsAssignmentOp op
    case true =>
      obtain ⟨hlvalue, htypes⟩ := hassign hop
      have hplace := hleft.isPlace hlvalue
      obtain ⟨m, hm⟩ := exists_assigned l sl.simple (sl.place hplace) op hop r sr.simple type
      refine ⟨m, .Binop hl hr ?_, .assignment hop sl sr hplace htypes hm⟩
      exact Reaches.operands (reaches_simple l sl.simple) (reaches_simple r sr.simple) hm.reaches
    case false =>
      by_cases hop' : op = .ARROW
      · subst hop'
        obtain ⟨pointee, hpointee⟩ := harrow rfl
        rw [← sl.typed] at hpointee
        obtain ⟨e, he, hsimple, hsame⟩ := removeArrow_spec r type sl.simple hpointee
        refine ⟨.Binop .dot e r type, .Binop hl hr ⟨0, fun _ _ => he⟩, ?_⟩
        refine .plain ⟨hsimple, sr.simple, nofun, nofun⟩ rfl id ⟨rfl, rfl⟩ (fun V => ?_)
          (fun _ => ⟨rfl, rfl⟩) fun _ => ⟨rfl, rfl⟩
        rw [hsame V]
        exact mimics_Binop rfl (sl.mimics V) (sr.mimics V) sr.leaf.1 type
      · refine ⟨.Binop op l r type, .Binop hl hr ⟨0, fun _ _ => ?_⟩, ?_⟩
        · exact SimplifyBinop_simple _ type hop' fun h => absurd (hop.symm.trans h) nofun
        · refine .plain ⟨sl.simple, sr.simple, hop', fun h => absurd (hop.symm.trans h) nofun⟩ rfl
            ?_ ⟨rfl, rfl⟩ (fun V => mimics_Binop hop (sl.mimics V) (sr.mimics V) sr.leaf.1 type)
            (fun _ => ⟨rfl, rfl⟩) fun _ => ⟨rfl, rfl⟩
          cases op <;> exact id
  | .Unary op expr type, ⟨hexpr, _, _⟩ => by
    obtain ⟨e, he, se⟩ := exists_simplified expr hexpr
    by_cases hop : IsIncDecOp op = true ∨ op = .ADDRESS
    · obtain ⟨m, hm, hsimple, htype, hleaf, hsame⟩ := exists_unary hop type e se.simple
      refine ⟨m, .Unary he (Reaches.operand (reaches_simple e se.simple) hm), ?_⟩
      refine .plain hsimple htype (fun h => absurd h (not_isPlace_unary hop)) hleaf (fun V => ?_)
        (fun _ => ⟨rfl, rfl⟩) fun h => absurd h (not_isPlace_unary hop)
      rw [hsame V]
      exact mimics_Unary op se.typed (se.mimics V) type
    · refine ⟨.Unary op e type, .Unary he ⟨0, fun _ _ => ?_⟩, ?_⟩
      · exact SimplifyUnary_simple _ type fun h => absurd h hop
      · refine .plain ⟨se.simple, fun h => absurd h hop⟩ rfl ?_ ⟨rfl, rfl⟩
          (fun V => mimics_Unary op se.typed (se.mimics V) type)
          (fun _ => ⟨rfl, rfl⟩) fun _ => ⟨rfl, rfl⟩
        cases op <;> exact id
  | .Cast T expr, hexpr => by
    obtain ⟨e, he, se⟩ := exists_simplified expr hexpr
    refine ⟨.Cast T e, .Cast T he, se.simple, rfl, se.place, ⟨rfl, rfl⟩,
      fun V => (se.mimics V).cast T.base, fun _ V f r r' hr => ?_⟩
    exact Mimics.twice f T.base (se.mimics V) hr
  | .ImplicitCast T expr, hexpr => by
    obtain ⟨e, he, se⟩ := exists_simplified expr hexpr
    exact ⟨.ImplicitCast T e, .ImplicitCast T he, .plain se.simple rfl id ⟨rfl, rfl⟩
      (fun V => (se.mimics V).unary _) (fun _ => ⟨rfl, rfl⟩) fun _ => ⟨rfl, rfl⟩⟩
  | .Comma before last, ⟨hbefore, hlast⟩ => by
    obtain ⟨b, hb, hbs, hbm⟩ := exists_simplifiedList before hbefore
    obtain ⟨l, hl, sl⟩ := exists_simplified last hlast
    refine ⟨.Comma b l, .Comma hb hl, ⟨hbs, sl.simple⟩, sl.typed, sl.place, ⟨rfl, rfl⟩,
      fun V => .bind (hbm V) fun _ => sl.mimics V, fun hplace V f r r' hr => ?_⟩
    have hleft : Values.compound f (V.eval (.Comma before last) true) r
        = V.evalList before >>= fun _ => Values.compound f (V.eval last true) r :=
      MemoryProgram.bind_assoc _ _ _
    rw [hleft]
    exact .bind (hbm V) fun _ => sl.reassigned hplace V f r r' hr
  | .Constructor T init, hinit => by
    obtain ⟨i, hi, si⟩ := exists_simplified init hinit
    exact ⟨.Constructor T i, .Constructor T hi, .plain si.simple rfl id ⟨rfl, rfl⟩
      (fun V => (si.mimics V).compoundLiteral _) (fun _ => ⟨rfl, rfl⟩) fun _ => ⟨rfl, rfl⟩⟩
  | .Ternary cond true_ false_ type, ⟨hcond, htrue, hfalse, _⟩ => by
    obtain ⟨c, hc, sc⟩ := exists_simplified cond hcond
    obtain ⟨t, ht, st⟩ := exists_simplified true_ htrue
    obtain ⟨f, hf, sf⟩ := exists_simplified false_ hfalse
    refine ⟨.Ternary c t f type, .Ternary hc ht hf, .plain ⟨sc.simple, st.simple, sf.simple⟩ rfl id
      ⟨rfl, rfl⟩ (fun V => (sc.mimics V).choose (fun v => ?_) fun _ => (sf.mimics V).value)
      (fun _ => ⟨rfl, rfl⟩) fun _ => ⟨rfl, rfl⟩⟩
    rw [st.leaf.2]
    cases true_.isNull
    · exact (st.mimics V).value
    · exact .ret v
  | .Array name dims type, ⟨hname, hdims, _⟩ => by
    obtain ⟨n, hn, sn⟩ := exists_simplified name hname
    obtain ⟨d, hd, hds, hdm⟩ := exists_simplifiedList dims hdims
    exact ⟨.Array n d type, .Array hn hd, .plain ⟨sn.simple, hds⟩ rfl id ⟨rfl, rfl⟩
      (fun V => (sn.mimics V).element type (hdm V)) (fun _ => ⟨rfl, rfl⟩) fun _ => ⟨rfl, rfl⟩⟩
  | .Call name args, ⟨hname, hargs⟩ => by
    obtain ⟨n, hn, sn⟩ := exists_simplified name hname
    obtain ⟨a, ha, has, ham⟩ := exists_simplifiedList args hargs
    exact ⟨.Call n a, .Call hn ha, .plain ⟨sn.simple, has⟩
      (congrArg (Option.bind · Ty.returned) sn.typed) id ⟨rfl, rfl⟩
      (fun V => (sn.mimics V).apply (ham V)) (fun _ => ⟨rfl, rfl⟩) fun _ => ⟨rfl, rfl⟩⟩
  | .Initializer exprs, hexprs => by
    obtain ⟨e, he, hes, hem⟩ := exists_simplifiedList exprs hexprs
    exact ⟨.Initializer e, .Initializer he, .plain hes rfl id ⟨rfl, rfl⟩
      (fun V => (hem V).initializer) (fun _ => ⟨rfl, rfl⟩) fun _ => ⟨rfl, rfl⟩⟩
  | .Block decl stmts type, ⟨hdecl, hstmts⟩ => by
    obtain ⟨d, hd, hds, hdm⟩ := exists_simplifiedList decl hdecl
    obtain ⟨t, ht, hts, htm⟩ := exists_simplifiedList stmts hstmts
    exact ⟨.Block d t type, .Block hd ht, .plain ⟨hds, hts⟩ rfl id ⟨rfl, rfl⟩
      (fun V => (hdm V).block (htm V)) (fun _ => ⟨rfl, rfl⟩) fun _ => ⟨rfl, rfl⟩⟩
  | .Decl name type init, hinit => by
    obtain ⟨i, hi, si⟩ := exists_simplified init hinit
    refine ⟨.Decl name type i, .Decl name type hi, .plain si.simple rfl id ⟨rfl, rfl⟩
      (fun V => ?_) (fun _ => ⟨rfl, rfl⟩) fun _ => ⟨rfl, rfl⟩⟩
    unfold Values.eval
    rw [si.leaf.2]
    cases init.isNull
    · exact (si.mimics V).declare name type.base
    · exact .ret _
  | .BuiltinVaArg expr type, hexpr => by
    obtain ⟨e, he, se⟩ := exists_simplified expr hexpr
    exact ⟨.BuiltinVaArg e type, .BuiltinVaArg type he, .plain se.simple rfl id ⟨rfl, rfl⟩
      (fun V => (se.mimics V).vaArg _) (fun _ => ⟨rfl, rfl⟩) fun _ => ⟨rfl, rfl⟩⟩

/-- **Every checked list is simplified**, and means the same. -/
theorem exists_simplifiedList : ∀ ns : Nodes, ns.Checked → ∃ ms, ListReaches ns ms ∧ ms.Simple ∧
    ∀ V : Values, Mimics V (V.evalList ns) (V.evalList ms)
  | .nil, _ => ⟨.nil, listReaches_simple .nil trivial, trivial, fun _ => .ret _⟩
  | .cons head tail, ⟨hhead, htail⟩ => by
    obtain ⟨h, hh, sh⟩ := exists_simplified head hhead
    obtain ⟨t, ht, hts, htm⟩ := exists_simplifiedList tail htail
    exact ⟨.cons h t, .cons hh ht, ⟨sh.simple, hts⟩,
      fun V => .bind (sh.mimics V).value fun _ => .bind (htm V) fun _ => .ret _⟩

end

/-- Values and objects that are all the same. -/
def sameValues : Values where
  Value := Unit
  Object := Unit
  constant _ _ := ()
  ident _ := ()
  temporary _ := ()
  conv _ _ := ()
  unop _ _ := ()
  binop _ _ _ := ()
  step _ _ := ()
  truth _ := true
  bool _ := ()
  size _ _ := ()
  address _ := ()
  deref _ := ()
  member _ _ := ()
  index _ _ := ()
  construct _ := ()
  conv_conv _ _ := rfl
  deref_address _ := rfl
  index_zero _ := rfl

/-- A memory that counts the side effects. -/
def effectCounter : sameValues.Memory where
  State := ℕ
  read _ _ := ()
  act _ s := ((), s + 1)

instance : DecidableEq effectCounter.State := inferInstanceAs (DecidableEq ℕ)

end Cilk.Simplification
