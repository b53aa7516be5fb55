import Cilk.ConstFold.Conditions

/-!
# Where folding departs from C

The shifts and the logical operators agree with C on any operands that do. The
other parts of an expression do so on a condition, which says of each kind of part
what goes wrong: the type of `sizeof` and of unary plus, the narrow types and the
pointers of casts, the enumerations and the truncated condition of a conditional
expression. It is a condition on the types and the values that C gives the
operands.

**An expression is folded as C prescribes, with all its parts, exactly if each of
them meets its condition.** That it is necessary is not said of conditional
expressions with an operand that has no value in C.
-/

namespace Cilk.ConstFold

open Sem TypeNode

variable {F : Floats} {ANSIOnly : Bool}

/-! ## Expressions -/

/-- A property of an expression and of all its parts. -/
def Expr.All (P : Expr → Prop) : Expr → Prop
  | .Const l => P (.Const l)
  | .Id text init => P (.Id text init)
  | .Unary op expr => P (.Unary op expr) ∧ expr.All P
  | .SizeofType type => P (.SizeofType type)
  | .Sizeof expr => P (.Sizeof expr) ∧ expr.All P
  | .Arithmetic op left right => P (.Arithmetic op left right) ∧ left.All P ∧ right.All P
  | .Comparison op left right => P (.Comparison op left right) ∧ left.All P ∧ right.All P
  | .Cast type expr => P (.Cast type expr) ∧ expr.All P
  | .Ternary cond cons alt => P (.Ternary cond cons alt) ∧ cond.All P ∧ cons.All P ∧ alt.All P
  | .TernaryOmitted cond alt => P (.TernaryOmitted cond alt) ∧ cond.All P ∧ alt.All P

variable (F ANSIOnly)

/-- **An expression that is folded as C prescribes.** -/
def Right (e : Expr) : Prop :=
  ∀ (node : Node F) x, (semCheckNode ANSIOnly e).value = some node → meaning e = some x →
    node.Prescribed x

/-- **The condition of each kind of expression**, on the types and the values of its
parts in C. -/
def Condition : Expr → Prop
  | .Const _ | .Unary .not _ | .Unary .bitnot _ => True
  /- The initializer of a constant of an enumeration is not a `long`, which would
  not be converted. -/
  | .Id _ init => init.kind ≠ .Slong
  -- Zero is the one number whose difference from zero has another sign.
  | .Unary .UMINUS expr =>
    ∀ (x : Typed F) v, meaning expr = some x → x.2 = some v → MinusExact v
  -- The operand is of a type that is not promoted.
  | .Unary .UPLUS expr =>
    ∀ (x : Typed F) b, meaning expr = some x → x.1.promoted = some b → x.1 = .arith b
  -- The type is `unsigned`, and in C it is `unsigned long`.
  | .SizeofType _ | .Sizeof _ => False
  | .Cast type expr =>
    ∀ (x : Typed F) v, meaning expr = some x → x.2 = some v → CastKept type v
  | .Arithmetic op left right => op ∉ [.LS, .RS, .ANDAND, .OROR] →
    ∀ x y : Typed F, meaning left = some x → meaning right = some y → SecondExact x.1 y.1
  | .Comparison op left right =>
    ∀ x y : Typed F, meaning left = some x → meaning right = some y → ComparisonExact op x y
  | .Ternary cond cons alt =>
    ∀ c x y : Typed F, meaning cond = some c → meaning cons = some x → meaning alt = some y →
      OperandsExact x y ∧ ∀ taken, (∀ w, c.2 = some w → w.hostTruth = some taken) →
        ChoiceExact taken c x y
  -- The condition is tested after its conversion to the type of the whole.
  | .TernaryOmitted cond alt =>
    ∀ c y : Typed F, meaning cond = some c → meaning alt = some y →
      OperandsExact c y ∧ ∀ taken, (∀ t w v, conditionalType c y = some t → c.2 = some w →
        convertTo t w = some v → v.hostTruth = some taken) → ChoiceExact taken c c y

/-- **The condition is met**, where a constant is attached to a constant expression
of C. -/
def Meets (e : Expr) : Prop :=
  ∀ (node : Node F) (x : Typed F), (semCheckNode ANSIOnly e).value = some node →
    node.isConstant = true → meaning e = some x → Condition F e

/-- The operands of a conditional expression have values in C. -/
def OperandsDefined : Expr → Prop
  | .Ternary cond cons alt =>
    ∀ expr ∈ [cond, cons, alt], ∀ x : Typed F, meaning expr = some x → x.2.isSome
  | .TernaryOmitted cond alt =>
    ∀ expr ∈ [cond, alt], ∀ x : Typed F, meaning expr = some x → x.2.isSome
  | _ => True

/-- An expression whose node agrees with C. -/
def Sound (e : Expr) : Prop :=
  ∀ (node : Node F) x, (semCheckNode ANSIOnly e).value = some node → meaning e = some x →
    node.Agrees x

variable {F ANSIOnly} {e expr left right cond cons alt : Expr}

theorem right_of_sound (h : Sound F ANSIOnly e) : Right F ANSIOnly e :=
  fun node x hnode hx => (h node x hnode hx).prescribed

theorem sound_const (l : Literal) : Sound F ANSIOnly (.Const l) := by
  intro node x hnode hx _
  obtain rfl := Option.some.inj hnode
  obtain rfl := Option.some.inj hx
  exact ⟨_, carries_int l.inRange, fun v hv => Option.some.inj hv⟩

theorem id_folded {text : String} {init : Literal} {node : Node F} {x : Typed F}
    (hnode : (semCheckNode ANSIOnly (.Id text init)).value = some node)
    (hx : meaning (.Id text init) = some x) :
    (init.kind ≠ .Slong → node.Agrees x) ∧ (node.Prescribed x → init.kind ≠ .Slong) := by
  obtain rfl := Option.some.inj hnode
  unfold meaning at hx
  split_ifs at hx with hrange
  obtain rfl := Option.some.inj hx
  have hwrap := IntType.convert_of_inRange hrange
  unfold assignEnumValue
  cases hkind : init.kind with
  | Slong =>
    refine ⟨fun h => absurd rfl h, fun hright => ?_⟩
    obtain ⟨-, hbasic, -⟩ := hright _ rfl
    nomatch hbasic
  | Sint => exact ⟨fun _ _ => ⟨_, carries_int (k := .Sint) hrange, fun v hv => Option.some.inj hv⟩, nofun⟩
  | Uint | Ulong =>
    dsimp only
    rw [hwrap]
    exact ⟨fun _ _ => ⟨_, carries_int (k := .Sint) hrange, fun v hv => Option.some.inj hv⟩, nofun⟩

variable (F ANSIOnly) in
/-- **One expression**, of parts that agree with C: it is as C prescribes exactly if
the condition is met. -/
def Step (e : Expr) : Prop :=
  (Meets F ANSIOnly e → Sound F ANSIOnly e) ∧
    (OperandsDefined F e → Right F ANSIOnly e → Meets F ANSIOnly e)

/-- An expression that has no condition. -/
theorem step_of_sound (h : Sound F ANSIOnly e) (hcondition : Condition F e) :
    Step F ANSIOnly e :=
  ⟨fun _ => h, fun _ _ _ _ _ _ _ => hcondition⟩

/-- What is to be shown of a node with a constant. -/
theorem step_of_node (h : ∀ (node : Node F) x, (semCheckNode ANSIOnly e).value = some node →
    node.isConstant = true → meaning e = some x →
    (Condition F e → node.Agrees x) ∧
      (OperandsDefined F e → node.Prescribed x → Condition F e)) :
    Step F ANSIOnly e :=
  ⟨fun hmeets node x hnode hx hconstant =>
    (h node x hnode hconstant hx).1 (hmeets node x hnode hconstant hx) hconstant,
  fun hdefined hright node x hnode hconstant hx =>
    (h node x hnode hconstant hx).2 hdefined (hright node x hnode hx)⟩

theorem step_id (text : String) (init : Literal) : Step F ANSIOnly (.Id text init) :=
  step_of_node fun _ _ hnode _ hx =>
    ⟨(id_folded hnode hx).1, fun _ => (id_folded hnode hx).2⟩

/-- **The operand of a unary operator.** -/
theorem exists_operand {op : UnaryOp} {node : Node F} {x : Typed F} (h : Sound F ANSIOnly expr)
    (hnode : (semCheckNode ANSIOnly (.Unary op expr)).value = some node)
    (hx : meaning (.Unary op expr) = some x) :
    ∃ n y, n.Agrees y ∧ meaning expr = some y ∧ (semCheckUnary op n).value = some node ∧
      unaryMeaning op y = some x := by
  unfold semCheckNode at hnode
  rw [value_bind] at hnode
  obtain ⟨n, hn, hnode⟩ := Option.bind_eq_some_iff.mp hnode
  obtain ⟨y, hy, hx⟩ := Option.bind_eq_some_iff.mp hx
  exact ⟨n, y, h n y hn hy, hy, hnode, hx⟩

theorem step_minus (h : Sound F ANSIOnly expr) : Step F ANSIOnly (.Unary .UMINUS expr) := by
  refine step_of_node fun node z hnode hconstant hz => ?_
  obtain ⟨n, x, hagrees, hx, hrun, hmeaning⟩ := exists_operand h hnode hz
  obtain ⟨u, w, hw, hv, hvalue, hdefined⟩ := minus_folded hagrees hrun hmeaning hconstant
  refine ⟨fun hexact _ => ⟨w, hw, fun v hz => ?_⟩, fun _ hright y v hy hoperand => ?_⟩
  · obtain ⟨hoperand, hiff⟩ := hvalue v hz
    exact hiff.mpr (hexact x u hx hoperand)
  · obtain rfl := Option.some.inj (hx.symm.trans hy)
    obtain rfl := hv v hoperand
    rcases hdefined hoperand with hexact | hdefined
    · exact hexact
    · obtain ⟨v, hv⟩ := Option.isSome_iff_exists.mp hdefined
      obtain ⟨k, hk, rfl, -⟩ := hw.value
      exact (hvalue v hv).2.mp ((hright k hk).2.2 v hv)

theorem step_plus (h : Sound F ANSIOnly expr) : Step F ANSIOnly (.Unary .UPLUS expr) := by
  refine step_of_node fun node z hnode hconstant hz => ?_
  obtain ⟨n, x, hagrees, hx, hrun, hmeaning⟩ := exists_operand h hnode hz
  obtain ⟨u, b, hb, htype, hu, hvalue⟩ := plus_folded hagrees hrun hmeaning hconstant
  refine ⟨fun hexact _ => ⟨u, ?_, hvalue (hexact x b hx hb)⟩, fun _ hright y b' hy hb' => ?_⟩
  · rw [htype, ← hexact x b hx hb]
    exact hu
  · obtain rfl := Option.some.inj (hx.symm.trans hy)
    obtain rfl := Option.some.inj (hb.symm.trans hb')
    obtain ⟨k, hk⟩ := Option.isSome_iff_exists.mp hconstant
    obtain ⟨hsame, -⟩ := hright k hk
    rw [← hu.type, hsame, htype]

theorem step_cast {type : TypeNode} (h : Sound F ANSIOnly expr) :
    Step F ANSIOnly (.Cast type expr) := by
  refine step_of_node fun node z hnode hconstant hz => ?_
  unfold semCheckNode at hnode
  simp only [value_bind] at hnode
  obtain ⟨n, hn, hnode⟩ := Option.bind_eq_some_iff.mp hnode
  obtain ⟨_, -, hnode⟩ := Option.bind_eq_some_iff.mp hnode
  obtain ⟨value, hvalue, hnode⟩ := Option.bind_eq_some_iff.mp hnode
  obtain rfl := Option.some.inj hnode
  obtain ⟨c, rfl⟩ := Option.isSome_iff_exists.mp hconstant
  obtain ⟨x, hx, hmeaning⟩ := Option.bind_eq_some_iff.mp hz
  obtain ⟨u, hcarries, hv, hvalue, hdefined⟩ := cast_folded (h n x hn hx) hvalue hmeaning
  refine ⟨fun hexact _ => ⟨_, hcarries, fun v hz => ?_⟩, fun _ hright y v hy hoperand => ?_⟩
  · obtain ⟨hoperand, hiff⟩ := hvalue v hz
    exact hiff.mpr (hexact x u hx hoperand)
  · obtain rfl := Option.some.inj (hx.symm.trans hy)
    obtain rfl := hv v hoperand
    rcases hdefined hoperand with hexact | hdefined
    · exact hexact
    · obtain ⟨v, hv⟩ := Option.isSome_iff_exists.mp hdefined
      exact (hvalue v hv).2.mp ((hright c rfl).2.2 v hv)

theorem step_arithmetic {op : ArithmeticOp} (h₁ : Sound F ANSIOnly left)
    (h₂ : Sound F ANSIOnly right) : Step F ANSIOnly (.Arithmetic op left right) := by
  refine step_of_node fun node z hnode hconstant hz => ?_
  unfold semCheckNode at hnode
  simp only [value_bind] at hnode
  obtain ⟨l, hl, hnode⟩ := Option.bind_eq_some_iff.mp hnode
  obtain ⟨r, hr, hnode⟩ := Option.bind_eq_some_iff.mp hnode
  obtain ⟨x, hx, hz⟩ := Option.bind_eq_some_iff.mp hz
  obtain ⟨y, hy, hz⟩ := Option.bind_eq_some_iff.mp hz
  have hleft := h₁ l x hl hx
  have hright := h₂ r y hr hy
  refine ⟨fun hexact => semCheckArithmetic_sound hleft hright (fun hop => hexact hop x y hx hy)
    hnode hz, fun _ hprescribed hop x' y' hx' hy' => ?_⟩
  obtain rfl := Option.some.inj (hx.symm.trans hx')
  obtain rfl := Option.some.inj (hy.symm.trans hy')
  obtain ⟨c, hc⟩ := Option.isSome_iff_exists.mp hconstant
  refine second_of_arithmetic hop hleft hright hnode ?_ hconstant (hprescribed c hc).1
  cases op with
  | LS | RS | ANDAND | OROR => exact absurd hop (by decide)
  | mul | div | mod | add | sub | band | bxor | bor => exact hz

/-- No operator gives an enumeration. -/
theorem unaryMeaning_arith {op : UnaryOp} {x y : Typed F} (h : unaryMeaning op y = some x) :
    ∃ b, x.1 = .arith b := by
  cases op with
  | UMINUS | UPLUS =>
    obtain ⟨b, -, h⟩ := Option.bind_eq_some_iff.mp h
    obtain rfl := Option.some.inj h
    exact ⟨_, rfl⟩
  | not =>
    unfold unaryMeaning at h
    dsimp only at h
    split_ifs at h
    obtain rfl := Option.some.inj h
    exact ⟨_, rfl⟩
  | bitnot =>
    obtain ⟨b, -, h⟩ := Option.bind_eq_some_iff.mp h
    split_ifs at h
    obtain rfl := Option.some.inj h
    exact ⟨_, rfl⟩

theorem arithmeticMeaning_arith {op : ArithmeticOp} {x y z : Typed F}
    (h : arithmeticMeaning op y z = some x) : ∃ b, x.1 = .arith b := by
  cases op with
  | LS | RS =>
    obtain ⟨b₁, -, h⟩ := Option.bind_eq_some_iff.mp h
    obtain ⟨b₂, -, h⟩ := Option.bind_eq_some_iff.mp h
    split_ifs at h
    obtain rfl := Option.some.inj h
    exact ⟨_, rfl⟩
  | ANDAND | OROR =>
    unfold arithmeticMeaning logicalMeaning at h
    dsimp only at h
    split_ifs at h
    obtain rfl := Option.some.inj h
    exact ⟨_, rfl⟩
  | mul | div | mod | add | sub | band | bxor | bor =>
    obtain ⟨b, -, h⟩ := Option.bind_eq_some_iff.mp h
    split_ifs at h
    obtain rfl := Option.some.inj h
    exact ⟨_, rfl⟩

theorem conditionalMeaning_ne_enum {c x y z : Typed F} {tag : ℕ} {b : BasicType}
    (h : conditionalMeaning c y z = some x) : x.1 ≠ .enum tag b := by
  intro htype
  obtain ⟨ht, -⟩ := conditionalMeaning_eq h
  rw [htype] at ht
  unfold conditionalType at ht
  split at ht
  · nomatch ht
  · split_ifs at ht
    nomatch ht

/-- **The value of an enumeration** is one of the type that it is compatible with:
it comes from a cast. -/
theorem fits_of_enum {x : Typed F} {v : Value F} {tag : ℕ} {b : BasicType}
    (hx : meaning e = some x) (htype : x.1 = .enum tag b) (hv : x.2 = some v) :
    Fits (.arith b) v := by
  have harith (h : ∃ b, x.1 = .arith b) : Fits (.arith b) v := by
    obtain ⟨b', hb'⟩ := h
    nomatch htype.symm.trans hb'
  cases e with
  | Cast type expr =>
    obtain ⟨y, -, hx⟩ := Option.bind_eq_some_iff.mp hx
    unfold castMeaning at hx
    split_ifs at hx
    obtain rfl := Option.some.inj hx
    obtain ⟨w, -, hv⟩ := Option.bind_eq_some_iff.mp hv
    change type.cType = .enum tag b at htype
    rw [htype] at hv
    exact fits_of_convertBasic hv
  | Const l =>
    obtain rfl := Option.some.inj hx
    exact harith ⟨_, rfl⟩
  | Id text init =>
    unfold meaning at hx
    split_ifs at hx
    obtain rfl := Option.some.inj hx
    exact harith ⟨_, rfl⟩
  | SizeofType type =>
    unfold meaning at hx
    split_ifs at hx
    obtain rfl := Option.some.inj hx
    exact harith ⟨_, rfl⟩
  | Sizeof expr =>
    obtain ⟨y, -, hx⟩ := Option.bind_eq_some_iff.mp hx
    obtain rfl := Option.some.inj hx
    exact harith ⟨_, rfl⟩
  | Unary op expr =>
    obtain ⟨y, -, hx⟩ := Option.bind_eq_some_iff.mp hx
    exact harith (unaryMeaning_arith hx)
  | Arithmetic op left right =>
    obtain ⟨y, -, hx⟩ := Option.bind_eq_some_iff.mp hx
    obtain ⟨z, -, hx⟩ := Option.bind_eq_some_iff.mp hx
    exact harith (arithmeticMeaning_arith hx)
  | Comparison op left right =>
    obtain ⟨y, -, hx⟩ := Option.bind_eq_some_iff.mp hx
    obtain ⟨z, -, hx⟩ := Option.bind_eq_some_iff.mp hx
    obtain ⟨b', -, hx⟩ := Option.bind_eq_some_iff.mp hx
    obtain rfl := Option.some.inj hx
    exact harith ⟨_, rfl⟩
  | Ternary cond cons alt =>
    obtain ⟨c, -, hx⟩ := Option.bind_eq_some_iff.mp hx
    obtain ⟨y, -, hx⟩ := Option.bind_eq_some_iff.mp hx
    obtain ⟨z, -, hx⟩ := Option.bind_eq_some_iff.mp hx
    exact absurd htype (conditionalMeaning_ne_enum hx)
  | TernaryOmitted cond alt =>
    obtain ⟨c, -, hx⟩ := Option.bind_eq_some_iff.mp hx
    obtain ⟨z, -, hx⟩ := Option.bind_eq_some_iff.mp hx
    exact absurd htype (conditionalMeaning_ne_enum hx)

theorem step_comparison {op : ComparisonOp} (h₁ : Sound F ANSIOnly left)
    (h₂ : Sound F ANSIOnly right) : Step F ANSIOnly (.Comparison op left right) := by
  refine step_of_node fun node z hnode hconstant hz => ?_
  unfold semCheckNode at hnode
  simp only [value_bind] at hnode
  obtain ⟨l, hl, hnode⟩ := Option.bind_eq_some_iff.mp hnode
  obtain ⟨r, hr, hnode⟩ := Option.bind_eq_some_iff.mp hnode
  obtain ⟨x, hx, hz⟩ := Option.bind_eq_some_iff.mp hz
  obtain ⟨y, hy, hz⟩ := Option.bind_eq_some_iff.mp hz
  obtain ⟨hsound, hexact⟩ := comparison_folded (h₁ l x hl hx) (h₂ r y hr hy)
    (fun _ _ _ htype hv => fits_of_enum hy htype hv) hnode hz hconstant
  refine ⟨fun hcondition => hsound (hcondition x y hx hy), fun _ hright x' y' hx' hy' => ?_⟩
  obtain rfl := Option.some.inj (hx.symm.trans hx')
  obtain rfl := Option.some.inj (hy.symm.trans hy')
  exact hexact hright

theorem step_sizeof : Step F ANSIOnly (.Sizeof expr) := by
  refine step_of_node fun node z hnode hconstant hz => ⟨False.elim, fun _ hright => ?_⟩
  unfold semCheckNode at hnode
  rw [value_bind] at hnode
  obtain ⟨n, -, hnode⟩ := Option.bind_eq_some_iff.mp hnode
  unfold semCheckSizeof at hnode
  rw [value_bind] at hnode
  obtain ⟨size, -, hnode⟩ := Option.bind_eq_some_iff.mp hnode
  obtain rfl := Option.some.inj hnode
  obtain ⟨x, -, hz⟩ := Option.bind_eq_some_iff.mp hz
  obtain rfl := Option.some.inj hz
  obtain ⟨hsame, -⟩ := hright _ rfl
  nomatch hsame

theorem step_sizeofType {type : TypeNode} : Step F ANSIOnly (.SizeofType type) := by
  refine step_of_node fun node z hnode hconstant hz => ⟨False.elim, fun _ hright => ?_⟩
  unfold semCheckNode semCheckSizeof at hnode
  rw [value_bind] at hnode
  obtain ⟨size, -, hnode⟩ := Option.bind_eq_some_iff.mp hnode
  obtain rfl := Option.some.inj hnode
  unfold meaning at hz
  split_ifs at hz
  obtain rfl := Option.some.inj hz
  obtain ⟨hsame, -⟩ := hright _ rfl
  nomatch hsame

/-- What is stored for a condition is no other constant than that of its node. -/
theorem value_of_stored {node : Node F} {k : Const F} (h : (stored cond node).value = some k) :
    node.value = some k := by
  unfold stored at h
  split at h
  · nomatch h
  · exact h

theorem step_ternary (h : Sound F ANSIOnly cond) (h₁ : Sound F ANSIOnly cons)
    (h₂ : Sound F ANSIOnly alt) : Step F ANSIOnly (.Ternary cond cons alt) := by
  refine step_of_node fun node z hnode hconstant hz => ?_
  unfold semCheckNode at hnode
  simp only [value_bind] at hnode
  obtain ⟨n, hn, hnode⟩ := Option.bind_eq_some_iff.mp hnode
  obtain ⟨first, hfirst, hnode⟩ := Option.bind_eq_some_iff.mp hnode
  obtain ⟨second, hsecond, hnode⟩ := Option.bind_eq_some_iff.mp hnode
  obtain ⟨c, hc, hz⟩ := Option.bind_eq_some_iff.mp hz
  obtain ⟨x, hx, hz⟩ := Option.bind_eq_some_iff.mp hz
  obtain ⟨y, hy, hz⟩ := Option.bind_eq_some_iff.mp hz
  obtain ⟨hsound, hexact⟩ := ternary_folded (h n c hn hc) (h₁ first x hfirst hx)
    (h₂ second y hsecond hy) (fun _ => value_of_stored) hnode hz hconstant
  refine ⟨fun hcondition => hsound (hcondition c x y hc hx hy),
    fun hdefined hright c' x' y' hc' hx' hy' => ?_⟩
  obtain rfl := Option.some.inj (hc.symm.trans hc')
  obtain rfl := Option.some.inj (hx.symm.trans hx')
  obtain rfl := Option.some.inj (hy.symm.trans hy')
  obtain ⟨hoperands, hchoice⟩ := hexact hright
  exact ⟨hoperands, hchoice (hdefined cond (by simp) c hc) (hdefined cons (by simp) x hx)
    (hdefined alt (by simp) y hy)⟩

theorem step_ternaryOmitted (h₁ : Sound F ANSIOnly cond) (h₂ : Sound F ANSIOnly alt) :
    Step F ANSIOnly (.TernaryOmitted cond alt) := by
  refine step_of_node fun node z hnode hconstant hz => ?_
  unfold semCheckNode at hnode
  simp only [value_bind] at hnode
  obtain ⟨first, hfirst, hnode⟩ := Option.bind_eq_some_iff.mp hnode
  obtain ⟨second, hsecond, hnode⟩ := Option.bind_eq_some_iff.mp hnode
  obtain ⟨c, hc, hz⟩ := Option.bind_eq_some_iff.mp hz
  obtain ⟨y, hy, hz⟩ := Option.bind_eq_some_iff.mp hz
  obtain ⟨hsound, hexact⟩ :=
    ternaryOmitted_folded (h₁ first c hfirst hc) (h₂ second y hsecond hy) hnode hz hconstant
  obtain ⟨ht, -⟩ := conditionalMeaning_eq hz
  refine ⟨fun hcondition => ?_, fun hdefined hright c' y' hc' hy' => ?_⟩
  · obtain ⟨hoperands, hchoice⟩ := hcondition c y hc hy
    refine hsound ⟨hoperands, fun taken htaken => hchoice taken fun t w v ht' hw hv => ?_⟩
    obtain rfl := Option.some.inj (ht.symm.trans ht')
    exact htaken w v hw hv
  · obtain rfl := Option.some.inj (hc.symm.trans hc')
    obtain rfl := Option.some.inj (hy.symm.trans hy')
    obtain ⟨hoperands, hchoice⟩ := hexact hright
    refine ⟨hoperands, fun taken htaken => ?_⟩
    exact hchoice (hdefined cond (by simp) c hc) (hdefined alt (by simp) y hy) taken
      fun w v hw hv => htaken z.1 w v ht hw hv

/-- From one expression to all of its parts. -/
theorem step_all {definedParts rightParts meetsParts : Prop} (hsound : meetsParts → rightParts)
    (hexact : definedParts → rightParts → meetsParts) (hstep : meetsParts → Step F ANSIOnly e) :
    (Meets F ANSIOnly e ∧ meetsParts →
      Sound F ANSIOnly e ∧ Right F ANSIOnly e ∧ rightParts) ∧
    (OperandsDefined F e ∧ definedParts → Right F ANSIOnly e ∧ rightParts →
      Meets F ANSIOnly e ∧ meetsParts) := by
  refine ⟨fun h => ?_, fun hdefined hright => ?_⟩
  · have hfolded := (hstep h.2).1 h.1
    exact ⟨hfolded, right_of_sound hfolded, hsound h.2⟩
  · have hmeets := hexact hdefined.2 hright.2
    exact ⟨(hstep hmeets).2 hdefined.1 hright.1, hmeets⟩

/-- The same of an expression without parts. -/
theorem step_leaf (hstep : Step F ANSIOnly e) :
    (Meets F ANSIOnly e → Sound F ANSIOnly e ∧ Right F ANSIOnly e) ∧
      (OperandsDefined F e → Right F ANSIOnly e → Meets F ANSIOnly e) :=
  ⟨fun h => ⟨hstep.1 h, right_of_sound (hstep.1 h)⟩, hstep.2⟩

theorem step_unary {op : UnaryOp} (h : Sound F ANSIOnly expr) :
    Step F ANSIOnly (.Unary op expr) := by
  cases op with
  | UMINUS => exact step_minus h
  | UPLUS => exact step_plus h
  | not =>
    refine step_of_sound (fun node z hnode hz => ?_) trivial
    obtain ⟨n, x, hagrees, -, hrun, hmeaning⟩ := exists_operand h hnode hz
    exact not_sound hagrees hrun hmeaning
  | bitnot =>
    refine step_of_sound (fun node z hnode hz => ?_) trivial
    obtain ⟨n, x, hagrees, -, hrun, hmeaning⟩ := exists_operand h hnode hz
    exact bitnot_sound hagrees hrun hmeaning

/-- **All parts that meet the condition are as C prescribes**, and then the whole
agrees with C; and the other way round. The induction is on the expression. -/
theorem all_sound (F : Floats) (ANSIOnly : Bool) (e : Expr) :
    (e.All (Meets F ANSIOnly) → Sound F ANSIOnly e ∧ e.All (Right F ANSIOnly)) ∧
      (e.All (OperandsDefined F) → e.All (Right F ANSIOnly) → e.All (Meets F ANSIOnly)) := by
  induction e with
  | Const l => exact step_leaf (step_of_sound (sound_const l) trivial)
  | Id text init => exact step_leaf (step_id text init)
  | SizeofType type => exact step_leaf step_sizeofType
  | Unary op expr ih =>
    exact step_all (fun h => (ih.1 h).2) ih.2 fun h => step_unary (ih.1 h).1
  | Sizeof expr ih => exact step_all (fun h => (ih.1 h).2) ih.2 fun _ => step_sizeof
  | Cast type expr ih =>
    exact step_all (fun h => (ih.1 h).2) ih.2 fun h => step_cast (ih.1 h).1
  | Arithmetic op left right ihl ihr =>
    exact step_all (fun h => ⟨(ihl.1 h.1).2, (ihr.1 h.2).2⟩)
      (fun hd h => ⟨ihl.2 hd.1 h.1, ihr.2 hd.2 h.2⟩)
      fun h => step_arithmetic (ihl.1 h.1).1 (ihr.1 h.2).1
  | Comparison op left right ihl ihr =>
    exact step_all (fun h => ⟨(ihl.1 h.1).2, (ihr.1 h.2).2⟩)
      (fun hd h => ⟨ihl.2 hd.1 h.1, ihr.2 hd.2 h.2⟩)
      fun h => step_comparison (ihl.1 h.1).1 (ihr.1 h.2).1
  | Ternary cond cons alt ihc ihl ihr =>
    exact step_all (fun h => ⟨(ihc.1 h.1).2, (ihl.1 h.2.1).2, (ihr.1 h.2.2).2⟩)
      (fun hd h => ⟨ihc.2 hd.1 h.1, ihl.2 hd.2.1 h.2.1, ihr.2 hd.2.2 h.2.2⟩)
      fun h => step_ternary (ihc.1 h.1).1 (ihl.1 h.2.1).1 (ihr.1 h.2.2).1
  | TernaryOmitted cond alt ihc ihr =>
    exact step_all (fun h => ⟨(ihc.1 h.1).2, (ihr.1 h.2).2⟩)
      (fun hd h => ⟨ihc.2 hd.1 h.1, ihr.2 hd.2 h.2⟩)
      fun h => step_ternaryOmitted (ihc.1 h.1).1 (ihr.1 h.2).1

end Cilk.ConstFold
