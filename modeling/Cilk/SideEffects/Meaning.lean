import Cilk.SideEffects.Model
import Mathlib.Tactic

/-!
# What evaluating an expression may change

An evaluation evaluates the parts of a node, and then the node itself may act on
the variables and the objects: an assignment, a call, `va_arg`, which advances
the list that it is given, an `asm` with outputs or with the memory among what it
clobbers, one that is nothing but its text, which the compiler knows nothing of and
which may write to any variable that it names, and `sync`, at which the results of
the children are there.

What values are and how they are computed is up to a machine. The machine says
which way a condition goes, but not where a jump leads: the parts of a statement
may be evaluated in any order and any number of times.
-/

namespace Cilk.SideEffects

/-! ## The parts of a node -/

def Nodes.append : Nodes → Nodes → Nodes
  | nil, ns => ns
  | cons n rest, ns => cons n (rest.append ns)

def Nodes.Mem (n : Node) : Nodes → Prop
  | nil => False
  | cons head tail => n = head ∨ tail.Mem n

instance : Membership Node Nodes := ⟨fun ns n => ns.Mem n⟩

def Nodes.one (n : Node) : Nodes := cons n nil

def Nodes.two (n m : Node) : Nodes := cons n (one m)

/-- **The parts that are evaluated** with the node. The operand of `sizeof` is not,
and neither are types, designators and the constant of a `case`. -/
def Node.parts : Node → Nodes
  | Binop op left right =>
    match op with
    | .dot | .ARROW => .one left
    | .colon | .DESIGNATED_INITIALIZER | .ARRAY_LABELED_INITIALIZER => .one right
    | .ELLIPSIS => .nil
    | _ => .two left right
  | Unary op expr =>
    match op with
    | .SIZEOF | .ALIGNOF => .nil
    | _ => .one expr
  | Cast _ expr | ImplicitCast expr | AsmArg expr | BuiltinVaArg expr _ | Return expr => .one expr
  | Constructor _ initializerlist => .one initializerlist
  | Decl init => .one init
  | Comma exprs | Initializer exprs => exprs
  | Ternary cond true_ false_ => .cons cond (.two true_ false_)
  | IfElse expr true_ false_ => .cons expr (.two true_ false_)
  | Array name dims => .cons name dims
  | Call name args | InletCall name args => .cons name args
  | Spawn receiver name args => .cons receiver (.cons name args)
  | Switch expr stmt | If expr stmt | While expr stmt => .two expr stmt
  | Do stmt expr => .two stmt expr
  | For init cond next stmt => .cons init (.cons cond (.two next stmt))
  | Block decl stmts | XBlock decl stmts => decl.append stmts
  | Asm output input _ => output.append input
  | _ => .nil

/-- **The node itself may change a variable or an object.** -/
def Node.acts : Node → Bool
  | Binop op _ _ => IsAssignmentOp op
  | Unary op _ => IsIncDecOp op
  | Call .. | Spawn .. | InletCall .. | Sync | BuiltinVaArg .. => true
  | Asm output input clobbered =>
    !output.isNil || "memory" ∈ clobbered || (input.isNil && clobbered.isEmpty)
  | _ => false

/-- A statement that is made of statements. -/
def Node.isControl : Node → Bool
  | Switch .. | If .. | IfElse .. | While .. | Do .. | For .. | Block .. | XBlock .. => true
  | _ => false

/-- An expression that does not evaluate all its parts. -/
def Node.isConditional : Node → Bool
  | Binop .ANDAND _ _ | Binop .OROR _ _ | Ternary .. => true
  | _ => false

/-! ## Evaluations -/

/-- What the operators and the calls of a program do. -/
structure Machine where
  State : Type
  Value : Type
  /-- Whether a condition of this value holds. -/
  truth : Value → Bool
  /-- The value of a node from those of its parts. -/
  yields : Node → List Value → State → Value → Prop
  /-- The value and what becomes of the state, if the node acts. -/
  acts : Node → List Value → State → Value → State → Prop

/-- A node, a list of nodes one after the other, or some of the nodes in any
order. -/
inductive Phrase
  | node (n : Node)
  | all (ns : Nodes)
  | any (ns : Nodes)

/-- An evaluation, the values that it gives, and the state that it leads to. -/
inductive Machine.Eval (M : Machine) : Phrase → M.State → List M.Value → M.State → Prop
  | nil (s) : M.Eval (.all .nil) s [] s
  | cons {n ns s m s' v vs} : M.Eval (.node n) s [v] m → M.Eval (.all ns) m vs s' →
    M.Eval (.all (.cons n ns)) s (v :: vs) s'
  | stop (ns s) : M.Eval (.any ns) s [] s
  | step {n ns s m s' v} : n ∈ ns → M.Eval (.node n) s [v] m → M.Eval (.any ns) m [] s' →
    M.Eval (.any ns) s [] s'
  /-- A statement yields a value where it is the last one of a statement
  expression. -/
  | control {n s s' v} : n.isControl = true → M.Eval (.any n.parts) s [] s' →
    M.Eval (.node n) s [v] s'
  | plain {n s s' vs v} : n.isControl = false → n.isConditional = false → n.acts = false →
    M.Eval (.all n.parts) s vs s' → M.yields n vs s' v → M.Eval (.node n) s [v] s'
  | act {n s m s' vs v} : n.isControl = false → n.isConditional = false → n.acts = true →
    M.Eval (.all n.parts) s vs m → M.acts n vs m v s' → M.Eval (.node n) s [v] s'
  | andFalse {l r s s' v w} : M.Eval (.node l) s [v] s' → M.truth v = false →
    M.yields (.Binop .ANDAND l r) [v] s' w → M.Eval (.node (.Binop .ANDAND l r)) s [w] s'
  | andTrue {l r s m s' v v' w} : M.Eval (.node l) s [v] m → M.truth v = true →
    M.Eval (.node r) m [v'] s' → M.yields (.Binop .ANDAND l r) [v, v'] s' w →
    M.Eval (.node (.Binop .ANDAND l r)) s [w] s'
  | orTrue {l r s s' v w} : M.Eval (.node l) s [v] s' → M.truth v = true →
    M.yields (.Binop .OROR l r) [v] s' w → M.Eval (.node (.Binop .OROR l r)) s [w] s'
  | orFalse {l r s m s' v v' w} : M.Eval (.node l) s [v] m → M.truth v = false →
    M.Eval (.node r) m [v'] s' → M.yields (.Binop .OROR l r) [v, v'] s' w →
    M.Eval (.node (.Binop .OROR l r)) s [w] s'
  | chooseTrue {c t f s m s' v w} : M.Eval (.node c) s [v] m → M.truth v = true → t ≠ .NULL →
    M.Eval (.node t) m [w] s' → M.Eval (.node (.Ternary c t f)) s [w] s'
  | chooseCond {c f s s' v} : M.Eval (.node c) s [v] s' → M.truth v = true →
    M.Eval (.node (.Ternary c .NULL f)) s [v] s'
  | chooseFalse {c t f s m s' v w} : M.Eval (.node c) s [v] m → M.truth v = false →
    M.Eval (.node f) m [w] s' → M.Eval (.node (.Ternary c t f)) s [w] s'

/-- **Evaluating the node leaves every variable and every object unchanged**, in every
state of every machine. -/
def Node.Harmless (n : Node) : Prop :=
  ∀ (M : Machine) (s : M.State) (vs : List M.Value) (s' : M.State),
    M.Eval (.node n) s vs s' → s' = s

/-! ## Where something acts -/

theorem Nodes.mem_cons {n head : Node} {tail : Nodes} :
    n ∈ Nodes.cons head tail ↔ n = head ∨ n ∈ tail := Iff.rfl

/-- The size of the nodes of a list. -/
noncomputable def Nodes.weight : Nodes → ℕ
  | nil => 0
  | cons n rest => sizeOf n + rest.weight

theorem Nodes.sizeOf_le_weight {n : Node} : ∀ {ns : Nodes}, n ∈ ns → sizeOf n ≤ ns.weight
  | .cons head tail, h => by
    show sizeOf n ≤ sizeOf head + tail.weight
    obtain rfl | h := Nodes.mem_cons.mp h
    · omega
    · have := Nodes.sizeOf_le_weight h
      omega

theorem Nodes.weight_le_sizeOf : ∀ ns : Nodes, ns.weight ≤ sizeOf ns
  | .nil => Nat.zero_le _
  | .cons head tail => by
    have := Nodes.weight_le_sizeOf tail
    show sizeOf head + tail.weight ≤ _
    rw [Nodes.cons.sizeOf_spec]
    omega

theorem Nodes.weight_append : ∀ ns ms : Nodes, (ns.append ms).weight = ns.weight + ms.weight
  | .nil, ms => (Nat.zero_add _).symm
  | .cons head tail, ms => by
    show sizeOf head + (tail.append ms).weight = sizeOf head + tail.weight + ms.weight
    rw [Nodes.weight_append, Nat.add_assoc]

/-- The parts together are smaller than the node. -/
theorem Node.weight_parts (n : Node) : n.parts.weight < sizeOf n := by
  cases n with
  | Binop op left right =>
    cases op <;> simp only [Node.parts, Nodes.one, Nodes.two, Nodes.weight,
      Node.Binop.sizeOf_spec] <;> omega
  | Unary op expr =>
    cases op <;> simp only [Node.parts, Nodes.one, Nodes.weight, Node.Unary.sizeOf_spec] <;> omega
  | Comma exprs =>
    have := exprs.weight_le_sizeOf
    simp only [Node.parts, Node.Comma.sizeOf_spec]
    omega
  | Initializer exprs =>
    have := exprs.weight_le_sizeOf
    simp only [Node.parts, Node.Initializer.sizeOf_spec]
    omega
  | Array name dims =>
    have := dims.weight_le_sizeOf
    simp only [Node.parts, Nodes.weight, Node.Array.sizeOf_spec]
    omega
  | Call name args =>
    have := args.weight_le_sizeOf
    simp only [Node.parts, Nodes.weight, Node.Call.sizeOf_spec]
    omega
  | InletCall name args =>
    have := args.weight_le_sizeOf
    simp only [Node.parts, Nodes.weight, Node.InletCall.sizeOf_spec]
    omega
  | Spawn receiver name args =>
    have := args.weight_le_sizeOf
    simp only [Node.parts, Nodes.weight, Node.Spawn.sizeOf_spec]
    omega
  | Block decl stmts =>
    have hdecl := decl.weight_le_sizeOf
    have hstmts := stmts.weight_le_sizeOf
    simp only [Node.parts, Nodes.weight_append, Node.Block.sizeOf_spec]
    omega
  | XBlock decl stmts =>
    have hdecl := decl.weight_le_sizeOf
    have hstmts := stmts.weight_le_sizeOf
    simp only [Node.parts, Nodes.weight_append, Node.XBlock.sizeOf_spec]
    omega
  | Asm output input clobbered =>
    have hout := output.weight_le_sizeOf
    have hin := input.weight_le_sizeOf
    simp only [Node.parts, Nodes.weight_append, Node.Asm.sizeOf_spec]
    omega
  | _ =>
    simp [Node.parts, Nodes.one, Nodes.two, Nodes.weight]
    try omega

theorem Node.sizeOf_part {n p : Node} (h : p ∈ n.parts) : sizeOf p < sizeOf n :=
  lt_of_le_of_lt (Nodes.sizeOf_le_weight h) n.weight_parts

/-- **Induction over the parts of a node.** -/
theorem Node.parts_induction {P : Node → Prop} (h : ∀ n : Node, (∀ p ∈ n.parts, P p) → P n)
    (n : Node) : P n :=
  h n fun p hp =>
    have := Node.sizeOf_part hp
    Node.parts_induction h p
termination_by sizeOf n

/-- **Some node at a place that is evaluated** has the property. -/
inductive Node.Within (P : Node → Prop) : Node → Prop
  | here {n : Node} : P n → n.Within P
  | part {n p : Node} : p ∈ n.parts → p.Within P → n.Within P

theorem Node.within_iff {P : Node → Prop} {n : Node} :
    n.Within P ↔ P n ∨ ∃ p ∈ n.parts, p.Within P := by
  constructor
  · intro h
    cases h with
    | here h => exact .inl h
    | part hp h => exact .inr ⟨_, hp, h⟩
  · rintro (h | ⟨p, hp, h⟩)
    · exact .here h
    · exact .part hp h

theorem Node.Within.mono {P Q : Node → Prop} (hPQ : ∀ n, P n → Q n) {n : Node}
    (h : n.Within P) : n.Within Q := by
  induction h with
  | here h => exact .here (hPQ _ h)
  | part hp _ ih => exact .part hp ih

/-- Nothing acts where the phrase is evaluated. -/
def Phrase.Quiet : Phrase → Prop
  | .node n => ¬ n.Within (·.acts = true)
  | .all ns | .any ns => ∀ n ∈ ns, ¬ n.Within (·.acts = true)

theorem Node.quiet_parts {n : Node} (h : (Phrase.node n).Quiet) : (Phrase.all n.parts).Quiet :=
  fun _ hp hw => h (.part hp hw)

/-- **Where nothing acts nothing changes.** -/
theorem Machine.Eval.unchanged {M : Machine} {ph : Phrase} {s s' : M.State} {vs : List M.Value}
    (h : M.Eval ph s vs s') : ph.Quiet → s' = s := by
  induction h with
  | nil => exact fun _ => rfl
  | cons _ _ ih₁ ih₂ =>
    intro hq
    exact (ih₂ fun n hn => hq n (.inr hn)).trans (ih₁ (hq _ (.inl rfl)))
  | stop => exact fun _ => rfl
  | step hn _ _ ih₁ ih₂ =>
    intro hq
    exact (ih₂ hq).trans (ih₁ (hq _ hn))
  | control _ _ ih => exact fun hq => ih (Node.quiet_parts hq)
  | plain _ _ _ _ _ ih => exact fun hq => ih (Node.quiet_parts hq)
  | act _ _ hact => exact fun hq => absurd (.here hact) hq
  | andFalse _ _ _ ih => exact fun hq => ih (Node.quiet_parts hq _ (.inl rfl))
  | andTrue _ _ _ _ ih₁ ih₂ =>
    intro hq
    exact (ih₂ (Node.quiet_parts hq _ (.inr (.inl rfl)))).trans
      (ih₁ (Node.quiet_parts hq _ (.inl rfl)))
  | orTrue _ _ _ ih => exact fun hq => ih (Node.quiet_parts hq _ (.inl rfl))
  | orFalse _ _ _ _ ih₁ ih₂ =>
    intro hq
    exact (ih₂ (Node.quiet_parts hq _ (.inr (.inl rfl)))).trans
      (ih₁ (Node.quiet_parts hq _ (.inl rfl)))
  | chooseTrue _ _ _ _ ih₁ ih₂ =>
    intro hq
    exact (ih₂ (Node.quiet_parts hq _ (.inr (.inl rfl)))).trans
      (ih₁ (Node.quiet_parts hq _ (.inl rfl)))
  | chooseCond _ _ ih => exact fun hq => ih (Node.quiet_parts hq _ (.inl rfl))
  | chooseFalse _ _ _ ih₁ ih₂ =>
    intro hq
    exact (ih₂ (Node.quiet_parts hq _ (.inr (.inr (.inl rfl))))).trans
      (ih₁ (Node.quiet_parts hq _ (.inl rfl)))

/-! ## A machine that counts -/

/-- Conditions go either way, and a node that acts adds one. -/
abbrev counter : Machine where
  State := ℕ
  Value := Bool
  truth := id
  yields _ _ _ _ := True
  acts _ _ s _ s' := s' = s + 1

/-- Every node can be evaluated to every value, and something is counted if
something acts where it is evaluated. -/
def Node.Counts (n : Node) : Prop :=
  ∀ (s : ℕ) (v : Bool), ∃ s', counter.Eval (.node n) s [v] s' ∧ s ≤ s' ∧
    (n.Within (·.acts = true) → s < s')

theorem counts_all : ∀ {ns : Nodes}, (∀ n ∈ ns, n.Counts) → ∀ s : ℕ,
    ∃ vs s', counter.Eval (.all ns) s vs s' ∧ s ≤ s' ∧
      ((∃ n ∈ ns, n.Within (·.acts = true)) → s < s')
  | .nil, _, s =>
    ⟨[], s, Machine.Eval.nil (M := counter) s, le_rfl, fun ⟨_, hn, _⟩ => hn.elim⟩
  | .cons head tail, h, s => by
    obtain ⟨m, hhead, hle, hlt⟩ := h head (.inl rfl) s true
    obtain ⟨vs, s', htail, hle', hlt'⟩ := counts_all (fun n hn => h n (.inr hn)) m
    refine ⟨true :: vs, s', .cons hhead htail, hle.trans hle', ?_⟩
    rintro ⟨n, rfl | hn, hw⟩
    · exact lt_of_lt_of_le (hlt hw) hle'
    · exact lt_of_le_of_lt hle (hlt' ⟨n, hn, hw⟩)

theorem counts_control {n : Node} (hc : n.isControl = true) (h : ∀ p ∈ n.parts, p.Counts) :
    n.Counts := by
  intro s v
  have hacts : n.acts = false := by
    cases n <;> first | rfl | cases hc
  by_cases hw : ∃ p ∈ n.parts, p.Within (·.acts = true)
  · obtain ⟨p, hp, hpw⟩ := hw
    obtain ⟨s', heval, hle, hlt⟩ := h p hp s v
    exact ⟨s', .control hc (.step hp heval (.stop _ _)), hle, fun _ => hlt hpw⟩
  · refine ⟨s, .control hc (.stop _ _), le_rfl, fun hn => ?_⟩
    rcases Node.within_iff.mp hn with hact | hpart
    · exact absurd (hacts.symm.trans hact) Bool.false_ne_true
    · exact absurd hpart hw

theorem counts_strict {n : Node} (hc : n.isControl = false) (hcond : n.isConditional = false)
    (h : ∀ p ∈ n.parts, p.Counts) : n.Counts := by
  intro s v
  obtain ⟨vs, m, heval, hle, hlt⟩ := counts_all h s
  cases hact : n.acts
  case false =>
    refine ⟨m, .plain hc hcond hact heval trivial, hle, fun hn => ?_⟩
    rcases Node.within_iff.mp hn with hact' | hpart
    · exact absurd (hact.symm.trans hact') Bool.false_ne_true
    · exact hlt hpart
  case true => exact ⟨m + 1, .act hc hcond hact heval rfl, by omega, fun _ => by omega⟩

/-- The first part is evaluated, and the second after it. -/
theorem counts_second {n l r : Node} (hacts : n.acts = false) (hparts : n.parts = .two l r)
    (hl : l.Counts) (hr : r.Counts) (b : Bool)
    (heval : ∀ {s m s' : ℕ} (v : Bool), counter.Eval (.node l) s [b] m →
      counter.Eval (.node r) m [v] s' → counter.Eval (.node n) s [v] s') : n.Counts := by
  intro s v
  obtain ⟨m, hl, hle, hlt⟩ := hl s b
  obtain ⟨s', hr, hle', hlt'⟩ := hr m v
  refine ⟨s', heval v hl hr, hle.trans hle', fun hn => ?_⟩
  rcases Node.within_iff.mp hn with hact | ⟨p, hp, hpw⟩
  · exact absurd (hacts.symm.trans hact) Bool.false_ne_true
  · rw [hparts] at hp
    rcases hp with rfl | rfl | hp
    · exact lt_of_lt_of_le (hlt hpw) hle'
    · exact lt_of_le_of_lt hle (hlt' hpw)
    · exact hp.elim

theorem not_within_NULL {P : Node → Prop} (h : ¬ P .NULL) : ¬ Node.NULL.Within P := by
  rw [Node.within_iff]
  rintro (hnull | ⟨_, hp, _⟩)
  · exact h hnull
  · exact hp.elim

theorem counts_Ternary {c t f : Node} (hc : c.Counts) (ht : t.Counts) (hf : f.Counts) :
    (Node.Ternary c t f).Counts := by
  intro s v
  by_cases hwt : t.Within (·.acts = true)
  · -- the condition holds, and what acts in its first branch is counted
    have hnull : t ≠ .NULL := by
      rintro rfl
      exact not_within_NULL Bool.false_ne_true hwt
    obtain ⟨m, hc, hle, -⟩ := hc s true
    obtain ⟨s', ht, -, hlt⟩ := ht m v
    have hlt := lt_of_le_of_lt hle (hlt hwt)
    exact ⟨s', .chooseTrue hc rfl hnull ht, hlt.le, fun _ => hlt⟩
  · obtain ⟨m, hc, hle, hlt⟩ := hc s false
    obtain ⟨s', hf, hle', hlt'⟩ := hf m v
    refine ⟨s', .chooseFalse hc rfl hf, hle.trans hle', fun hn => ?_⟩
    rcases Node.within_iff.mp hn with hact | ⟨p, rfl | rfl | rfl | hp, hpw⟩
    · exact absurd hact Bool.false_ne_true
    · exact lt_of_lt_of_le (hlt hpw) hle'
    · exact absurd hpw hwt
    · exact lt_of_le_of_lt hle (hlt' hpw)
    · exact hp.elim

/-- **The machine that counts sees whatever acts.** -/
theorem Node.counts (n : Node) : n.Counts := by
  refine Node.parts_induction (fun n ih => ?_) n
  cases hcond : n.isConditional
  case false =>
    cases hc : n.isControl
    · exact counts_strict hc hcond ih
    · exact counts_control hc ih
  case true =>
    unfold Node.isConditional at hcond
    split at hcond
    case h_1 l r =>
      exact counts_second rfl rfl (ih l (.inl rfl)) (ih r (.inr (.inl rfl))) true
        fun _ hl hr => .andTrue hl rfl hr trivial
    case h_2 l r =>
      exact counts_second rfl rfl (ih l (.inl rfl)) (ih r (.inr (.inl rfl))) false
        fun _ hl hr => .orFalse hl rfl hr trivial
    case h_3 c t f =>
      exact counts_Ternary (ih c (.inl rfl)) (ih t (.inr (.inl rfl)))
        (ih f (.inr (.inr (.inl rfl))))
    case h_4 => cases hcond

/-- **A node is harmless when nothing acts where it is evaluated.** -/
theorem harmless_iff {n : Node} : n.Harmless ↔ ¬ n.Within (·.acts = true) := by
  constructor
  · intro h hw
    obtain ⟨s', heval, -, hlt⟩ := n.counts 0 true
    have hsame : s' = 0 := h counter 0 [true] s' heval
    rw [hsame] at hlt
    exact absurd (hlt hw) (lt_irrefl 0)
  · intro h M s vs s' heval
    exact heval.unchanged h

end Cilk.SideEffects
