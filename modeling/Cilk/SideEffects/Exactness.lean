import Cilk.SideEffects.Meaning
import Mathlib.Data.List.TakeWhile

/-!
# When the two searches can be trusted

`SideeffectsNode` goes over the parts of a node in the order in which they are
evaluated, up to the first effect that it knows. It has no case for the
designators of array elements, and it does not know that `va_arg` advances its
list, that an `asm` without outputs may clobber the memory, and that `sync`
waits for results.

`CheckSideEffectFree` goes over everything that is written in an expression. What
it does not know there is `va_arg`.
-/

namespace Cilk.SideEffects

/-! ## What `SideeffectsNode` looks for -/

/-- The node is known to have an effect. -/
def Node.isEffect : Node → Bool
  | Binop op _ _ => IsAssignmentOp op
  | Unary op _ => IsIncDecOp op
  | Call .. | Spawn .. | InletCall .. => true
  | Asm output _ _ => !output.isNil
  | _ => false

/-- The node acts, and is not known to have an effect. -/
def Node.isHidden : Node → Bool
  | BuiltinVaArg .. | Sync => true
  | Asm output input clobbered =>
    output.isNil && ("memory" ∈ clobbered || (input.isNil && clobbered.isEmpty))
  | _ => false

/-- A designator of array elements, or an operator that is none of two operands. -/
def Node.isUnhandled : Node → Bool
  | Binop .ARRAY_LABELED_INITIALIZER _ _ | Binop .ELLIPSIS _ _ => true
  | Binop op _ _ => op.isUnary
  | _ => false

/-- What is searched: the parts, and the constant of a `case`. -/
def Node.searched : Node → Nodes
  | Case expr => .one expr
  | n => n.parts

/-- What is searched is the parts, but for the constant of a case label. -/
theorem Node.searched_eq {n : Node} (h : ∀ expr, n ≠ .Case expr) : n.searched = n.parts := by
  cases n <;> first | rfl | exact absurd rfl (h _)

/-- The nodes that are searched are smaller. -/
theorem Node.weight_searched (n : Node) : n.searched.weight < sizeOf n := by
  by_cases hcase : ∃ expr, n = .Case expr
  · obtain ⟨expr, rfl⟩ := hcase
    simp only [Node.searched, Nodes.one, Nodes.weight, Node.Case.sizeOf_spec]
    omega
  · rw [Node.searched_eq fun expr h => hcase ⟨expr, h⟩]
    exact n.weight_parts

mutual

/-- **The places that are searched**, in the order of evaluation. -/
def Node.places (n : Node) : List Node := n :: n.searched.places
termination_by 2 * sizeOf n
decreasing_by
  have := n.weight_searched
  omega

/-- The places of a list, one node after the other. -/
def Nodes.places : Nodes → List Node
  | .nil => []
  | .cons head tail => head.places ++ tail.places
termination_by ns => 2 * ns.weight + 1
decreasing_by
  · show 2 * sizeOf head < 2 * (sizeOf head + tail.weight) + 1
    omega
  · have hpos : 0 < sizeOf head := lt_of_le_of_lt (Nat.zero_le _) head.weight_parts
    show 2 * tail.weight + 1 < 2 * (sizeOf head + tail.weight) + 1
    omega

end

/-- **The search cannot pass the node**: there is no case for it, or it is a `case`
with an effect in its constant. -/
def Node.isRefused : Node → Bool
  | Case expr => expr.places.any Node.isEffect
  | n => n.isUnhandled

/-- What comes before the first effect. -/
def Node.beforeEffect (n : Node) : List Node := n.places.takeWhile fun m => !m.isEffect

/-- What acts is an effect that the code looks for, or one that it overlooks. -/
theorem Node.acts_eq (n : Node) : n.acts = (n.isEffect || n.isHidden) := by
  cases n with
  | Asm output input clobbered =>
    show (!output.isNil || decide ("memory" ∈ clobbered) || (input.isNil && clobbered.isEmpty))
      = (!output.isNil || (output.isNil &&
          (decide ("memory" ∈ clobbered) || (input.isNil && clobbered.isEmpty))))
    cases output.isNil <;> rfl
  | Binop op left right => exact (Bool.or_false _).symm
  | Unary op expr => exact (Bool.or_false _).symm
  | _ => rfl

/-! ## What the search returns -/

/-- A node without effects behind another changes nothing. -/
theorem orElse_false (a : Option Bool) : orElse a (some false) = a := by
  rcases a with _ | _ | _ <;> rfl

theorem orElse_assoc (a b c : Option Bool) : orElse (orElse a b) c = orElse a (orElse b c) := by
  rcases a with _ | _ | _ <;> rfl

theorem SideeffectsList_one (n : Node) : SideeffectsList (.one n) = SideeffectsNode n :=
  orElse_false _

theorem SideeffectsList_two (n m : Node) :
    SideeffectsList (.two n m) = orElse (SideeffectsNode n) (SideeffectsNode m) :=
  congrArg (orElse (SideeffectsNode n)) (SideeffectsList_one m)

/-- A list that is searched in two parts. -/
theorem SideeffectsList_append : ∀ ns ms : Nodes,
    SideeffectsList (ns.append ms) = orElse (SideeffectsList ns) (SideeffectsList ms)
  | .nil, _ => rfl
  | .cons head tail, ms => by
    show orElse (SideeffectsNode head) (SideeffectsList (tail.append ms)) = orElse (orElse _ _) _
    rw [SideeffectsList_append, orElse_assoc]

/-- **The search takes the parts in the order in which they are evaluated.** -/
theorem SideeffectsNode_eq (n : Node) (hcase : ∀ expr, n ≠ .Case expr) :
    SideeffectsNode n = if n.isEffect then some true
      else if n.isUnhandled then none else SideeffectsList n.parts := by
  cases n with
  | Binop op left right =>
    cases op <;> first
      | rfl
      | exact (SideeffectsList_one _).symm
      | exact (SideeffectsList_two _ _).symm
  | Unary op expr =>
    cases op <;> first
      | rfl
      | exact (SideeffectsList_one _).symm
  | Case expr => exact absurd rfl (hcase expr)
  | Ternary cond true_ false_ | IfElse cond true_ false_ =>
    exact congrArg (orElse (SideeffectsNode cond)) (SideeffectsList_two _ _).symm
  | For init cond next stmt =>
    exact congrArg (fun x => orElse (SideeffectsNode init) (orElse (SideeffectsNode cond) x))
      (SideeffectsList_two _ _).symm
  | Block decl stmts | XBlock decl stmts => exact (SideeffectsList_append _ _).symm
  | Asm output input clobbered => cases output <;> rfl
  | Switch expr stmt | If expr stmt | While expr stmt => exact (SideeffectsList_two _ _).symm
  | Do stmt expr => exact (SideeffectsList_two _ _).symm
  | Cast type expr | Constructor type expr | BuiltinVaArg expr type =>
    exact (SideeffectsList_one _).symm
  | ImplicitCast expr | AsmArg expr | Return expr | Decl expr =>
    exact (SideeffectsList_one _).symm
  | _ => rfl

/-- A search of some places, one after the other. -/
def scan : List Node → Option Bool
  | [] => some false
  | n :: rest => if n.isEffect then some true else if n.isRefused then none else scan rest

/-- A list of places that is scanned in two parts. -/
theorem scan_append : ∀ ns ms : List Node, scan (ns ++ ms) = orElse (scan ns) (scan ms)
  | [], _ => rfl
  | n :: rest, ms => by
    show (if _ then _ else if _ then _ else scan (rest ++ ms))
      = orElse (if _ then _ else if _ then _ else scan rest) (scan ms)
    rw [scan_append]
    cases n.isEffect <;> cases n.isRefused <;> rfl

/-- What is found is an effect. -/
theorem scan_eq_some_false : ∀ {ns : List Node}, scan ns = some false ↔
    ∀ n ∈ ns, n.isEffect = false ∧ n.isRefused = false
  | [] => iff_of_true rfl fun _ hn => absurd hn List.not_mem_nil
  | n :: rest => by
    rw [List.forall_mem_cons, ← scan_eq_some_false, scan]
    cases n.isEffect <;> cases n.isRefused <;> simp

/-- The search fails at a place that it cannot pass, before the first effect. -/
theorem scan_eq_none : ∀ {ns : List Node}, scan ns = none ↔
    ∃ n ∈ ns.takeWhile fun m => !m.isEffect, n.isRefused = true
  | [] => iff_of_false nofun (by simp)
  | n :: rest => by
    rw [List.takeWhile_cons, scan]
    cases heff : n.isEffect
    · cases href : n.isRefused
      · simp [scan_eq_none, href]
      · simp [href]
    · simp

/-- Where there is an effect, the scan does not say that there is none. -/
theorem scan_effect {ns : List Node} (h : ∃ n ∈ ns, n.isEffect = true) :
    scan ns ≠ some false := by
  obtain ⟨n, hn, heff⟩ := h
  exact fun hscan => absurd (heff.symm.trans (scan_eq_some_false.mp hscan n hn).1) nofun

/-- Where there is none, the scan does not find one. -/
theorem scan_no_effect {ns : List Node} (h : ∀ n ∈ ns, n.isEffect = false) :
    scan ns ≠ some true := by
  induction ns with
  | nil => exact nofun
  | cons n rest ih =>
    obtain ⟨hn, hrest⟩ := List.forall_mem_cons.mp h
    rw [scan, hn]
    cases n.isRefused
    · exact ih hrest
    · exact nofun

/-- The constant of a `case` may hold no effect. -/
theorem SideeffectsNode_Case {expr : Node} (h : SideeffectsNode expr = scan expr.places) :
    SideeffectsNode (.Case expr) = scan (Node.Case expr).places := by
  have hplaces : (Node.Case expr).places = .Case expr :: expr.places := by
    rw [Node.places, Node.searched, Nodes.one, Nodes.places, Nodes.places, List.append_nil]
  rw [hplaces, scan, Node.isRefused]
  show (SideeffectsNode expr).bind _ = if (Node.Case expr).isEffect = true then _ else _
  rw [h, if_neg (show ¬ (Node.Case expr).isEffect = true from Bool.false_ne_true)]
  cases hany : expr.places.any Node.isEffect
  case true =>
    have hfound := scan_effect (List.any_eq_true.mp hany)
    cases hscan : scan expr.places with
    | none => rfl
    | some found =>
      cases found with
      | false => exact absurd hscan hfound
      | true => rfl
  case false =>
    have hclean := scan_no_effect fun n hn => by
      simpa using List.any_eq_false.mp hany n hn
    cases hscan : scan expr.places with
    | none => rfl
    | some found =>
      cases found with
      | false => rfl
      | true => exact absurd hscan hclean

mutual

/-- **What `SideeffectsNode` returns**: it searches the places in their order. -/
theorem SideeffectsNode_scan (n : Node) : SideeffectsNode n = scan n.places := by
  by_cases hcase : ∃ expr, n = .Case expr
  · obtain ⟨expr, rfl⟩ := hcase
    exact SideeffectsNode_Case (SideeffectsNode_scan expr)
  · have hcase : ∀ expr, n ≠ .Case expr := fun expr h => hcase ⟨expr, h⟩
    have hrefused : n.isRefused = n.isUnhandled := by
      cases n <;> first | rfl | exact absurd rfl (hcase _)
    rw [SideeffectsNode_eq n hcase, Node.places, scan, hrefused, Node.searched_eq hcase,
      SideeffectsList_scan n.parts]
termination_by 2 * sizeOf n
decreasing_by
  · rename_i hn
    rw [hn, Node.Case.sizeOf_spec]
    omega
  · have := n.weight_parts
    omega

/-- `SideeffectsNode_scan`, of a list. -/
theorem SideeffectsList_scan : ∀ ns : Nodes, SideeffectsList ns = scan ns.places
  | .nil => by rw [Nodes.places]; rfl
  | .cons head tail => by
    rw [Nodes.places, scan_append, ← SideeffectsNode_scan head, ← SideeffectsList_scan tail]
    rfl
termination_by ns => 2 * ns.weight + 1
decreasing_by
  · show 2 * sizeOf head < 2 * (sizeOf head + tail.weight) + 1
    omega
  · have hpos : 0 < sizeOf head := lt_of_le_of_lt (Nat.zero_le _) head.weight_parts
    show 2 * tail.weight + 1 < 2 * (sizeOf head + tail.weight) + 1
    omega

end

/-- The places of a node are among those of its list. -/
theorem Nodes.places_of_mem {n : Node} : ∀ {ns : Nodes}, n ∈ ns → ∀ m ∈ n.places, m ∈ ns.places
  | .cons _ _, .inl rfl, m, hm => by
    rw [Nodes.places]
    exact List.mem_append_left _ hm
  | .cons _ _, .inr hn, m, hm => by
    rw [Nodes.places]
    exact List.mem_append_right _ (Nodes.places_of_mem hn m hm)

/-- Where no effect is at a place, what acts is hidden. -/
theorem Node.hidden_of_acts {n : Node} (h : n.Within (·.acts = true)) :
    (∀ m ∈ n.places, m.isEffect = false) → n.Within (·.isHidden = true) := by
  induction h with
  | @here n hact =>
    intro hall
    rw [Node.places] at hall
    have heff := hall n (List.mem_cons_self ..)
    have hact : (n.isEffect || n.isHidden) = true := n.acts_eq ▸ hact
    rw [heff] at hact
    exact .here hact
  | @part n p hp _ ih =>
    intro hall
    have hsearched : p ∈ n.searched := by
      cases n with
      | Case expr => exact hp.elim
      | _ => exact hp
    refine .part hp (ih fun m hm => hall m ?_)
    rw [Node.places]
    exact List.mem_cons_of_mem _ (Nodes.places_of_mem hsearched m hm)

/-- What the code overlooks acts. -/
theorem Node.acts_of_isHidden {n : Node} (h : n.isHidden = true) : n.acts = true := by
  rw [n.acts_eq, h, Bool.or_true]

/-! ## What `CheckSideEffectFree` looks for -/

/-- `CheckSideEffectFree` clears `side_effect_free` at the node, and goes no
further. -/
def Node.isNoticed : Node → Bool
  | Binop op _ _ => IsAssignmentOp op
  | Unary op _ => IsIncDecOp op
  | Block .. | Call .. | Spawn .. => true
  | _ => false

/-- `CheckSideEffectFree` fails at the node. -/
def Node.isStatement : Node → Bool
  | Label | Switch .. | Case _ | Default | If .. | IfElse .. | While .. | Do .. | For .. | Goto
  | Continue | Break | Return _ | Sync => true
  | _ => false

/-- All that is written in the node. -/
def Node.children : Node → Nodes
  | Binop _ left right => .two left right
  | Const type | Ptr type => .one type
  | Unary _ expr | ImplicitCast expr | AsmArg expr | Case expr | Return expr | Decl expr =>
    .one expr
  | Cast type expr | Constructor type expr => .two type expr
  | Comma exprs | Initializer exprs => exprs
  | Ternary expr true_ false_ | IfElse expr true_ false_ => .cons expr (.two true_ false_)
  | Array name args | Call name args | InletCall name args => .cons name args
  | Spawn receiver name args => .cons receiver (.cons name args)
  | Switch expr stmt | If expr stmt | While expr stmt => .two expr stmt
  | Do stmt expr => .two stmt expr
  | For init cond next stmt => .cons init (.cons cond (.two next stmt))
  | Block decl stmts | XBlock decl stmts => decl.append stmts
  | Asm output input _ => output.append input
  | BuiltinVaArg expr type => .two expr type
  | _ => .nil

/-- **Some node that is written there** has the property, at a place that is evaluated
or not. -/
inductive Node.Contains (P : Node → Prop) : Node → Prop
  | here {n : Node} : P n → n.Contains P
  | child {n p : Node} : p ∈ n.children → p.Contains P → n.Contains P

/-- What expressions are made of. -/
def Category.inExpr : Category → Bool
  | stmt | decl | asmArg => false
  | _ => true

/-- A node that is free of effects behind another changes nothing. -/
theorem andThen_true (a : Option Bool) : andThen a (some true) = a := by
  rcases a with _ | _ | _ <;> rfl

theorem andThen_assoc (a b c : Option Bool) :
    andThen (andThen a b) c = andThen a (andThen b c) := by
  rcases a with _ | _ | _ <;> rcases b with _ | _ | _ <;> rcases c with _ | _ | _ <;> rfl

theorem CheckList_one (n : Node) : CheckList (.one n) = CheckSideEffectFree n :=
  andThen_true _

theorem CheckList_two (n m : Node) :
    CheckList (.two n m) = andThen (CheckSideEffectFree n) (CheckSideEffectFree m) :=
  congrArg (andThen (CheckSideEffectFree n)) (CheckList_one m)

/-- A list that is checked in two parts. -/
theorem CheckList_append : ∀ ns ms : Nodes,
    CheckList (ns.append ms) = andThen (CheckList ns) (CheckList ms)
  | .nil, ms => by
    show CheckList ms = andThen (some true) (CheckList ms)
    rcases CheckList ms with _ | _ | _ <;> rfl
  | .cons head tail, ms => by
    show andThen (CheckSideEffectFree head) (CheckList (tail.append ms)) = andThen (andThen _ _) _
    rw [CheckList_append, andThen_assoc]

/-- **The walk goes to the children** where nothing is noticed. -/
theorem CheckSideEffectFree_eq {n : Node} (hn : n.isNoticed = false)
    (hstmt : n.isStatement = false) (hdecl : ∀ init, n ≠ .Decl init) :
    CheckSideEffectFree n = CheckList n.children := by
  cases n with
  | Binop op left right =>
    have hop : IsAssignmentOp op = false := hn
    rw [CheckSideEffectFree, hop]
    exact (CheckList_two left right).symm
  | Unary op expr =>
    have hop : IsIncDecOp op = false := hn
    rw [CheckSideEffectFree, hop]
    exact (CheckList_one expr).symm
  | Ternary cond true_ false_ =>
    exact congrArg (andThen (CheckSideEffectFree cond)) (CheckList_two _ _).symm
  | Asm output input clobbered => exact (CheckList_append _ _).symm
  | XBlock decl stmts => exact (CheckList_append _ _).symm
  | Cast type expr | Constructor type expr | BuiltinVaArg type expr =>
    exact (CheckList_two _ _).symm
  | Const expr | Ptr expr | ImplicitCast expr | AsmArg expr => exact (CheckList_one _).symm
  | Decl init => exact absurd rfl (hdecl init)
  | Block | Call | Spawn => cases hn
  | Label | Switch | Case | Default | If | IfElse | While | Do | For | Goto | Continue | Break
  | Return | Sync => cases hstmt
  | _ => rfl

/-! ## The walk over an expression -/

/-- A node of a list of one category is of that category. -/
theorem Nodes.All.mem {n : Node} {cat : Category} : ∀ {ns : Nodes}, ns.All cat → n ∈ ns → n.Is cat
  | .cons _ _, ⟨h, _⟩, .inl rfl => h
  | .cons _ _, ⟨_, h⟩, .inr hn => Nodes.All.mem h hn

theorem Nodes.mem_one {n m : Node} : n ∈ Nodes.one m ↔ n = m := by
  show n = m ∨ False ↔ n = m
  rw [or_false]

theorem Nodes.mem_two {n l r : Node} : n ∈ Nodes.two l r ↔ n = l ∨ n = r := by
  show n = l ∨ n ∈ Nodes.one r ↔ _
  rw [Nodes.mem_one]

/-- The children of a node are smaller. -/
theorem Node.weight_children (n : Node) : n.children.weight < sizeOf n := by
  cases n with
  | Comma exprs =>
    have := exprs.weight_le_sizeOf
    simp only [Node.children, Node.Comma.sizeOf_spec]
    omega
  | Initializer exprs =>
    have := exprs.weight_le_sizeOf
    simp only [Node.children, Node.Initializer.sizeOf_spec]
    omega
  | Array name args =>
    have := args.weight_le_sizeOf
    simp only [Node.children, Nodes.weight, Node.Array.sizeOf_spec]
    omega
  | Call name args =>
    have := args.weight_le_sizeOf
    simp only [Node.children, Nodes.weight, Node.Call.sizeOf_spec]
    omega
  | InletCall name args =>
    have := args.weight_le_sizeOf
    simp only [Node.children, Nodes.weight, Node.InletCall.sizeOf_spec]
    omega
  | Spawn receiver name args =>
    have := args.weight_le_sizeOf
    simp only [Node.children, Nodes.weight, Node.Spawn.sizeOf_spec]
    omega
  | Block decl stmts =>
    have hdecl := decl.weight_le_sizeOf
    have hstmts := stmts.weight_le_sizeOf
    simp only [Node.children, Nodes.weight_append, Node.Block.sizeOf_spec]
    omega
  | Asm output input clobbered =>
    have hout := output.weight_le_sizeOf
    have hin := input.weight_le_sizeOf
    simp only [Node.children, Nodes.weight_append, Node.Asm.sizeOf_spec]
    omega
  | XBlock decl stmts =>
    have hdecl := decl.weight_le_sizeOf
    have hstmts := stmts.weight_le_sizeOf
    simp only [Node.children, Nodes.weight_append, Node.XBlock.sizeOf_spec]
    omega
  | _ =>
    simp [Node.children, Nodes.one, Nodes.two, Nodes.weight]
    try omega

/-- So is each of them. -/
theorem Node.sizeOf_child {n p : Node} (h : p ∈ n.children) : sizeOf p < sizeOf n :=
  lt_of_le_of_lt (Nodes.sizeOf_le_weight h) n.weight_children

/-- A node that an expression is made of. -/
def Node.InExpr (n : Node) : Prop := ∃ cat : Category, cat.inExpr = true ∧ n.Is cat

/-- A name stands in expressions. -/
theorem Node.inExpr_of_isId {n : Node} (h : n.isId = true) : n.InExpr := by
  cases n with
  | Id name => exact ⟨.expr, rfl, rfl⟩
  | _ => cases h

/-- The nodes of a list stand in expressions where their category does. -/
theorem Nodes.All.inExpr {ns : Nodes} {cat : Category} (hcat : cat.inExpr = true)
    (h : ns.All cat) : ∀ p ∈ ns, p.InExpr :=
  fun _ hp => ⟨cat, hcat, h.mem hp⟩

theorem Nodes.forall_one {P : Node → Prop} {n : Node} (h : P n) : ∀ p ∈ Nodes.one n, P p := by
  intro p hp
  rw [Nodes.mem_one.mp hp]
  exact h

theorem Nodes.forall_cons {P : Node → Prop} {n : Node} {ns : Nodes} (h : P n)
    (hns : ∀ p ∈ ns, P p) : ∀ p ∈ Nodes.cons n ns, P p := by
  rintro p (rfl | hp)
  · exact h
  · exact hns p hp

theorem Nodes.forall_two {P : Node → Prop} {l r : Node} (hl : P l) (hr : P r) :
    ∀ p ∈ Nodes.two l r, P p :=
  Nodes.forall_cons hl (Nodes.forall_one hr)

/-- The operands of an expression are expressions. -/
theorem Node.inExpr_Binop {op : OpType} {left right : Node} (h : (Binop op left right).InExpr) :
    left.InExpr ∧ right.InExpr := by
  obtain ⟨cat, -, h⟩ := h
  unfold Node.Is at h
  split at h
  · exact ⟨Node.inExpr_of_isId h.2.1, .basicInitializer, rfl, h.2.2⟩
  · exact ⟨Node.inExpr_of_isId h.2.1, .basicInitializer, rfl, h.2.2⟩
  · exact ⟨⟨.designator, rfl, h.2.1⟩, .basicInitializer, rfl, h.2.2⟩
  · exact ⟨⟨.expr, rfl, h.2.1⟩, .expr, rfl, h.2.2⟩
  · exact ⟨⟨.expr, rfl, h.2.1⟩, Node.inExpr_of_isId h.2.2⟩
  · exact ⟨⟨.expr, rfl, h.2.1⟩, Node.inExpr_of_isId h.2.2⟩
  · exact ⟨⟨.expr, rfl, h.2.2.1⟩, .expr, rfl, h.2.2.2⟩

/-- The operand of an expression is one. -/
theorem Node.inExpr_Unary {op : OpType} {expr : Node} (h : (Unary op expr).InExpr) :
    expr.InExpr := by
  obtain ⟨cat, -, h⟩ := h
  unfold Node.Is at h
  split at h
  · exact ⟨.operand, rfl, h.2⟩
  · exact ⟨.operand, rfl, h.2⟩
  · exact ⟨.expr, rfl, h.2.2⟩

/-- An inlet call is a statement. -/
theorem Node.not_inExpr_InletCall {name : Node} {args : Nodes} :
    ¬ (InletCall name args).InExpr := by
  rintro ⟨cat, hcat, h⟩
  cases args with
  | nil => exact h
  | cons head rest =>
    cases head with
    | Spawn receiver proc args =>
      cases receiver with
      | NULL =>
        obtain ⟨rfl, -⟩ := h
        cases hcat
      | _ => exact h
    | _ => exact h

/-- **Expressions are made of expressions** up to where something is noticed, and of
no statements. -/
theorem Node.InExpr.children {n : Node} (h : n.InExpr) (hn : n.isNoticed = false) :
    n.isStatement = false ∧ (∀ init, n ≠ .Decl init) ∧ ∀ p ∈ n.children, p.InExpr := by
  cases n with
  | Binop op left right =>
    obtain ⟨hleft, hright⟩ := Node.inExpr_Binop h
    exact ⟨rfl, nofun, Nodes.forall_two hleft hright⟩
  | Unary op expr => exact ⟨rfl, nofun, Nodes.forall_one (Node.inExpr_Unary h)⟩
  | Block | Call | Spawn => cases hn
  | Label | Switch | Case | Default | If | IfElse | While | Do | For | Goto | Continue | Break
  | Return | Sync | XBlock | Asm | AsmArg | Decl =>
    obtain ⟨cat, hcat, h⟩ := h
    simp only [Node.Is] at h
    first
    | (subst h; cases hcat)
    | (obtain ⟨rfl, -⟩ := h; cases hcat)
  | InletCall name args => exact absurd h Node.not_inExpr_InletCall
  | Const type =>
    obtain ⟨_, -, -, htype⟩ := h
    exact ⟨rfl, nofun, Nodes.forall_one ⟨.typename, rfl, htype⟩⟩
  | Ptr type =>
    obtain ⟨_, -, -, htype⟩ := h
    exact ⟨rfl, nofun, Nodes.forall_one ⟨.typename, rfl, htype⟩⟩
  | ImplicitCast expr =>
    obtain ⟨_, -, -, hexpr⟩ := h
    exact ⟨rfl, nofun, Nodes.forall_one ⟨.expr, rfl, hexpr⟩⟩
  | Cast type expr =>
    obtain ⟨_, -, -, htype, hexpr⟩ := h
    exact ⟨rfl, nofun, Nodes.forall_two ⟨.typename, rfl, htype⟩ ⟨.expr, rfl, hexpr⟩⟩
  | Constructor type initializerlist =>
    obtain ⟨_, -, -, htype, hlist⟩ := h
    exact ⟨rfl, nofun, Nodes.forall_two ⟨.typename, rfl, htype⟩ ⟨.braces, rfl, hlist⟩⟩
  | BuiltinVaArg expr type =>
    obtain ⟨_, -, -, hexpr, htype⟩ := h
    exact ⟨rfl, nofun, Nodes.forall_two ⟨.expr, rfl, hexpr⟩ ⟨.typename, rfl, htype⟩⟩
  | Comma exprs =>
    obtain ⟨_, -, -, hexprs⟩ := h
    exact ⟨rfl, nofun, hexprs.inExpr rfl⟩
  | Initializer exprs =>
    obtain ⟨_, -, -, hexprs⟩ := h
    exact ⟨rfl, nofun, hexprs.inExpr rfl⟩
  | Ternary cond true_ false_ =>
    obtain ⟨_, -, -, hcond, htrue, hfalse⟩ := h
    exact ⟨rfl, nofun, Nodes.forall_cons ⟨.expr, rfl, hcond⟩
      (Nodes.forall_two ⟨.optExpr, rfl, htrue⟩ ⟨.expr, rfl, hfalse⟩)⟩
  | Array name dims =>
    obtain ⟨_, -, -, hname, hdims⟩ := h
    exact ⟨rfl, nofun, Nodes.forall_cons ⟨.expr, rfl, hname⟩ (hdims.inExpr rfl)⟩
  | _ => exact ⟨rfl, nofun, fun _ hp => hp.elim⟩

/-- **A list is free of effects** where each of its nodes is. -/
theorem CheckList_spec : ∀ {ns : Nodes},
    (∀ n ∈ ns, ∃ free, CheckSideEffectFree n = some free ∧ (free = true ↔ ¬ n.Contains (·.isNoticed = true))) →
    ∃ free, CheckList ns = some free ∧ (free = true ↔ ∀ n ∈ ns, ¬ n.Contains (·.isNoticed = true))
  | .nil, _ => ⟨true, rfl, iff_of_true rfl fun _ hn => hn.elim⟩
  | .cons head tail, h => by
    obtain ⟨free, hhead, hfree⟩ := h head (.inl rfl)
    obtain ⟨free', htail, hfree'⟩ := CheckList_spec fun n hn => h n (.inr hn)
    refine ⟨free && free', ?_, ?_⟩
    · show andThen (CheckSideEffectFree head) (CheckList tail) = _
      rw [hhead, htail]
      rfl
    · rw [Bool.and_eq_true, hfree, hfree']
      constructor
      · rintro ⟨hhead, htail⟩
        exact Nodes.forall_cons hhead htail
      · exact fun hall => ⟨hall head (.inl rfl), fun n hn => hall n (.inr hn)⟩

/-- **What `CheckSideEffectFree` finds**: it never fails on an expression, and leaves
`side_effect_free` set if there is nothing to notice. -/
theorem CheckSideEffectFree_spec (n : Node) (h : n.InExpr) :
    ∃ free, CheckSideEffectFree n = some free ∧ (free = true ↔ ¬ n.Contains (·.isNoticed = true)) := by
  cases hn : n.isNoticed
  case true =>
    have hfound : CheckSideEffectFree n = some false := by
      cases n <;> first | rfl | cases hn | exact if_pos hn
    exact ⟨false, hfound, iff_of_false nofun fun hno => hno (.here hn)⟩
  case false =>
    obtain ⟨hstmt, hdecl, hchildren⟩ := h.children hn
    obtain ⟨free, hlist, hfree⟩ := CheckList_spec fun p (hp : p ∈ n.children) =>
      have := Node.sizeOf_child hp
      CheckSideEffectFree_spec p (hchildren p hp)
    refine ⟨free, (CheckSideEffectFree_eq hn hstmt hdecl).trans hlist, hfree.trans ?_⟩
    constructor
    · rintro hall (hnot | ⟨hp, hnot⟩)
      · exact absurd (hn.symm.trans hnot) nofun
      · exact hall _ hp hnot
    · exact fun hno p hp hnot => hno (.child hp hnot)
termination_by sizeOf n

/-! ## What the walk misses -/

/-- A `va_arg`. -/
def Node.isVaArg : Node → Bool
  | BuiltinVaArg .. => true
  | _ => false

/-- What is evaluated of an expression is written in it, and of what acts in an
expression only `va_arg` is not noticed. -/
theorem Node.InExpr.acts {n : Node} (h : n.InExpr) (hn : n.isNoticed = false) :
    (∀ p ∈ n.parts, p ∈ n.children) ∧ (n.acts = true → n.isVaArg = true) := by
  obtain ⟨hstmt, hdecl, -⟩ := h.children hn
  cases n with
  | Binop op left right =>
    refine ⟨fun p hp => ?_, fun hact => absurd (hn.symm.trans hact) nofun⟩
    cases op <;> first
      | exact hp
      | exact hp.elim
      | exact .inr hp
      | exact Nodes.mem_two.mpr (.inl (Nodes.mem_one.mp hp))
  | Unary op expr =>
    refine ⟨fun p hp => ?_, fun hact => absurd (hn.symm.trans hact) nofun⟩
    cases op <;> first
      | exact hp
      | exact hp.elim
  | Block | Call | Spawn => cases hn
  | Cast type expr | Constructor type expr => exact ⟨fun _ hp => .inr hp, nofun⟩
  | BuiltinVaArg expr type => exact ⟨fun _ hp => hp.elim .inl fun h => h.elim, fun _ => rfl⟩
  | Label | Switch | Case | Default | If | IfElse | While | Do | For | Goto | Continue | Break
  | Return | Sync => cases hstmt
  | Decl init => exact absurd rfl (hdecl init)
  | Asm =>
    obtain ⟨cat, hcat, rfl, -⟩ := h
    cases hcat
  | InletCall name args => exact absurd h Node.not_inExpr_InletCall
  | Const | Ptr => exact ⟨fun _ hp => hp.elim, nofun⟩
  | _ => exact ⟨fun _ hp => hp, nofun⟩

/-- Of an expression in which nothing is noticed, only a `va_arg` acts. -/
theorem Node.InExpr.vaArg {n : Node} (h : n.Within (·.acts = true)) :
    n.InExpr → ¬ n.Contains (·.isNoticed = true) → n.Within (·.isVaArg = true) := by
  induction h with
  | @here n hact =>
    intro h hno
    have hn : n.isNoticed = false := Bool.eq_false_iff.mpr fun hn => hno (.here hn)
    exact .here ((h.acts hn).2 hact)
  | @part n p hp _ ih =>
    intro h hno
    have hn : n.isNoticed = false := Bool.eq_false_iff.mpr fun hn => hno (.here hn)
    have hchild := (h.acts hn).1 p hp
    exact .part hp (ih ((h.children hn).2.2 p hchild) fun hnot => hno (.child hchild hnot))

/-! ## Both together -/

end Cilk.SideEffects
