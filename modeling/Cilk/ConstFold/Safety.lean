import Cilk.ConstFold.Model

/-!
# Which constants are folded without harm

For two integer constants the operators of the host are applied after the usual
conversions, and nothing but the division by zero is tested for. So a fold is
defined exactly where the operator is, or where that test finds a zero divisor.
-/

namespace Cilk.ConstFold

open Sem TypeNode

variable {F : Floats} {ANSIOnly : Bool}

/-- **A constant operand** of one of the four integer types. -/
structure Node.Holds (node : Node F) (k : Kind) (v : ℤ) : Prop where
  type : node.type = Prim k.basic
  value : node.value = some (.int k v)
  inRange : k.intType.InRange v

/-- **A fold without harm**: every operation of the host is defined and no
assertion fails, and the node has a constant or an error was reported. -/
def Sem.Clean (x : Sem (Node F)) : Prop :=
  ∃ node reported, x = .ok (node, reported) ∧ (node.isConstant = true ∨ reported ≠ [])

/-- Where a type is among the four, from `int` to `unsigned long`. -/
def Kind.rank : Kind → ℕ
  | .Sint => 0
  | .Uint => 1
  | .Slong => 2
  | .Ulong => 3

/-- The type of two operands after the usual conversions. -/
def Kind.common (k l : Kind) : Kind := if k.rank < l.rank then l else k

/-- **When an operator can be folded**, of constants `a` and `b` of the types `k`
and `l`: a result with a sign fits, a quotient is not that of the least number
by `-1`, a remainder is not that by zero either, and a shift is by less than
the width. -/
def Foldable (op : ArithmeticOp) (k l : Kind) (a b : ℤ) : Prop :=
  let t := (k.common l).intType
  let u := k.intType
  match op with
  | .add => t.signed → t.InRange (t.convert a + t.convert b)
  | .sub => t.signed → t.InRange (t.convert a - t.convert b)
  | .mul => t.signed → t.InRange (t.convert a * t.convert b)
  | .div => ¬ (t.signed ∧ t.convert a = t.min ∧ t.convert b = -1)
  | .mod => t.convert b ≠ 0 ∧ ¬ (t.signed ∧ t.convert a = t.min ∧ t.convert b = -1)
  | .LS => 0 ≤ b ∧ b ≤ u.bits ∧ (u.signed → 0 ≤ a ∧ u.InRange (a * 2 ^ b.toNat))
  | .RS => 0 ≤ b ∧ b ≤ u.bits
  | .band | .bxor | .bor | .ANDAND | .OROR => True

/-! ## The conversions of integer constants -/

namespace Node.Holds

variable {node left right : Node F} {k l : Kind} {v a b : ℤ}

theorem isConstant (h : node.Holds k v) : node.isConstant = true := by
  unfold Node.isConstant
  rw [h.value]
  rfl

theorem kind (h : node.Holds k v) : node.type.kind = some k := by
  rw [h.type]
  exact kind_basic k

theorem isIntegralType (h : node.Holds k v) : node.type.isIntegralType = true := by
  rw [h.type]
  cases k <;> rfl

theorem isPointerType (h : node.Holds k v) : node.type.isPointerType = false := by
  rw [h.type]
  rfl

theorem constantValue (h : node.Holds k v) : node.constantValue k = pure v := by
  unfold Node.constantValue
  rw [h.value]
  exact if_pos rfl

/-- What a conversion of an integer constant leaves. -/
def converted (F : Floats) (k : Kind) (v : ℤ) : Node F :=
  ⟨Prim k.basic, some (.int k (k.intType.convert v))⟩

theorem holds_converted (k : Kind) (v : ℤ) : (converted F k v).Holds k (k.intType.convert v) :=
  ⟨rfl, rfl, k.intType.inRange_convert v⟩

/-- A constant is what a conversion to its own type leaves of it. -/
theorem eq_converted (h : node.Holds k v) : node = converted F k v := by
  obtain ⟨type, value⟩ := node
  obtain ⟨rfl, rfl, hv⟩ := h
  unfold converted
  rw [IntType.convert_of_inRange hv]

theorem usualUnaryConversions (h : node.Holds k v) (f_to_d : Bool) :
    usualUnaryConversions node f_to_d = pure node := by
  unfold ConstFold.usualUnaryConversions
  rw [h.type]
  cases k <;> rfl

/-- **An integer constant is converted to another type.** -/
theorem implicitConversions (h : node.Holds k v) (l : Kind) :
    implicitConversions node (Prim l.basic) = pure (converted F l v) := by
  unfold ConstFold.implicitConversions constFoldCast
  rw [h.isConstant, h.type, if_neg (by decide)]
  have hscalar : ((Prim l.basic).isScalarType && (Prim k.basic).isScalarType) = true := by
    cases k <;> cases l <;> rfl
  have hrepresented : (Prim l.basic).basicTypeOfConstantValue ∉
      [.Slonglong, .Ulonglong, .Longdouble] := by
    cases l <;> decide
  have hcast : castConstant (Prim k.basic).basicTypeOfConstantValue
      (Prim l.basic).basicTypeOfConstantValue node =
        (pure (.int l (l.intType.convert v)) : Sem (Const F)) := by
    have := h.constantValue
    unfold castConstant
    cases k <;> cases l <;> exact (congrArg (· >>= _) this).trans (Sem.pure_bind _ _)
  rw [if_pos hscalar, if_neg hrepresented, hcast]
  rfl

/-- **The usual conversions** give both constants the common type. -/
theorem usualBinaryConversions (hl : left.Holds k a) (hr : right.Holds l b) :
    usualBinaryConversions left right =
      pure (converted F (k.common l) a, converted F (k.common l) b) := by
  have hl' := hl.eq_converted
  have hr' := hr.eq_converted
  have hrank (k : Kind) : usualRank k.basic = some k.rank := by cases k <;> rfl
  unfold ConstFold.usualBinaryConversions
  rw [hl.type, hr.type]
  dsimp only
  rw [hrank, hrank]
  unfold Kind.common
  by_cases hkl : k.rank < l.rank
  · show (if k.rank < l.rank then _ else _) = _
    rw [if_pos hkl, if_pos hkl, hl.implicitConversions, Sem.pure_bind, ← hr']
  · show (if k.rank < l.rank then _ else _) = _
    rw [if_neg hkl, if_neg hkl]
    by_cases hlk : l.rank < k.rank
    · rw [if_pos hlk, hr.implicitConversions, Sem.pure_bind, ← hl']
    · obtain rfl : k = l := by
        have : k.rank = l.rank := by omega
        revert this
        cases k <;> cases l <;> decide
      rw [if_neg hlk, ← hl', ← hr']

end Node.Holds

/-! ## The arms of the operators -/

section

variable {left right : Node F} {k l : Kind} {a b : ℤ}

theorem foldIntegral_of_holds (hl : left.Holds k a) (hr : right.Holds k b)
    (int : Kind → ℤ → ℤ → Sem (Option (Const F))) : foldIntegral left right int = int k a b := by
  unfold foldIntegral
  rw [hl.isConstant, hr.isConstant, if_neg (by decide), hl.kind]
  show (do
    let lval ← left.constantValue k
    let rval ← right.constantValue k
    int k lval rval) = _
  rw [hl.constantValue, Sem.pure_bind, hr.constantValue, Sem.pure_bind]

theorem foldArithmetic_of_holds (hl : left.Holds k a) (hr : right.Holds k b)
    (int : Kind → ℤ → ℤ → Sem (Option (Const F)))
    (float : F.float.Carrier → F.float.Carrier → Sem (Option (Const F)))
    (double : F.double.Carrier → F.double.Carrier → Sem (Option (Const F))) :
    foldArithmetic left right int float double = int k a b := by
  have hfloat : left.type ≠ Prim .Float := by
    rw [hl.type]
    cases k <;> decide
  have hdouble : left.type ≠ Prim .Double := by
    rw [hl.type]
    cases k <;> decide
  unfold foldArithmetic
  rw [hl.isConstant, hr.isConstant, if_neg (by decide), if_neg hfloat, if_neg hdouble]
  exact foldIntegral_of_holds hl hr int

theorem foldShift_of_holds (hl : left.Holds k a) (hr : right.Holds l b)
    (int : Kind → ℤ → ℤ → Sem (Option (Const F))) :
    foldShift left right int = int k a (Kind.Ulong.intType.convert b) := by
  have hcount : right.constantIntegralValue = pure (Kind.Ulong.intType.convert b) := by
    unfold Node.constantIntegralValue
    rw [hr.value]
  unfold foldShift
  rw [hl.isConstant, hr.isConstant, if_neg (by decide), hcount, Sem.pure_bind, hl.kind]
  show (do
    let lval ← left.constantValue k
    int k lval _) = _
  rw [hl.constantValue, Sem.pure_bind]

/-- What ends in a node, without an error: it is folded without harm where a
constant is attached. -/
theorem clean_setInteger (operator : IntType → ℤ → ℤ → Option ℤ) (type : TypeNode) :
    Sem.Clean (do
      let value ← setInteger operator k a b
      pure (⟨type, value⟩ : Node F)) ↔ ∃ v, operator k.intType a b = some v := by
  unfold setInteger
  cases h : operator k.intType a b with
  | none => exact iff_of_false (fun ⟨_, _, hx, _⟩ => nomatch hx) nofun
  | some v => exact iff_of_true ⟨_, _, rfl, .inl rfl⟩ ⟨v, rfl⟩

theorem clean_pure (type : TypeNode) (c : Const F) :
    Sem.Clean (pure ⟨type, some c⟩ : Sem (Node F)) :=
  ⟨_, _, rfl, .inl rfl⟩

theorem require_true (message : String) : require true message = pure () := rfl

theorem isArithmeticType_of_holds (hl : left.Holds k a) : left.type.isArithmeticType = true := by
  unfold isArithmeticType
  rw [hl.isIntegralType, Bool.true_or]

theorem clean_setQuotient (hl : k.intType.InRange a) (type : TypeNode) :
    Sem.Clean (do
      let value ← setQuotient k a b
      pure (⟨type, value⟩ : Node F)) ↔
        ¬ (k.intType.signed ∧ a = k.intType.min ∧ b = -1) := by
  unfold setQuotient
  by_cases hb : b = 0
  · rw [if_pos hb]
    refine iff_of_true ⟨_, _, rfl, .inr (List.cons_ne_nil _ _)⟩ fun h => ?_
    omega
  · rw [if_neg hb, clean_setInteger, IntType.exists_div_iff hl hb]

/-- **An operator on constants of one type.** -/
theorem clean_arithmetic_iff (hl : left.Holds k a) (hr : right.Holds k b) (op : ArithmeticOp)
    (hshift : op ≠ .LS ∧ op ≠ .RS) :
    (arithmetic ANSIOnly op left right).Clean ↔ Foldable op k k a b := by
  have hconvert_a := IntType.convert_of_inRange hl.inRange
  have hconvert_b := IntType.convert_of_inRange hr.inRange
  have hcommon : k.common k = k := ite_self k
  have hla := isArithmeticType_of_holds hl
  have hra := isArithmeticType_of_holds hr
  have hli := hl.isIntegralType
  have hri := hr.isIntegralType
  have hfold := foldArithmetic_of_holds (F := F) hl hr
  have hint := foldIntegral_of_holds (F := F) hl hr
  unfold Foldable arithmetic
  rw [hcommon]
  simp only [hconvert_a, hconvert_b]
  cases op with
  | add =>
    simp only [hr.isPointerType, Bool.and_false, Bool.false_eq_true, if_false, hla, hra, hfold,
      Bool.true_and, Bool.true_or, require_true, Sem.pure_bind]
    rw [hl.type]
    show Sem.Clean (do
      let value ← setInteger IntType.add k a b
      pure ⟨Prim k.basic, value⟩) ↔ _
    rw [clean_setInteger]
    exact IntType.exists_result_iff
  | sub =>
    simp only [hla, hra, hfold, Bool.true_and, Bool.true_or, require_true, Sem.pure_bind]
    rw [clean_setInteger]
    exact IntType.exists_result_iff
  | mul =>
    simp only [hla, hra, hfold, Bool.true_and, require_true, Sem.pure_bind]
    rw [clean_setInteger]
    exact IntType.exists_result_iff
  | div =>
    simp only [hla, hra, hfold, Bool.true_and, require_true, Sem.pure_bind]
    exact clean_setQuotient hl.inRange _
  | mod =>
    unfold arithmetic.integral
    simp only [hli, hri, hint, Bool.true_and, require_true, Sem.pure_bind]
    rw [clean_setInteger]
    exact IntType.exists_mod_iff hl.inRange
  | LS => exact absurd rfl hshift.1
  | RS => exact absurd rfl hshift.2
  | band | bxor | bor =>
    unfold arithmetic.integral
    simp only [hli, hri, hint, Bool.true_and, require_true, Sem.pure_bind]
    rw [clean_setInteger]
    exact iff_of_true ⟨_, rfl⟩ trivial
  | ANDAND | OROR =>
    unfold arithmetic.logical
    simp only [hl.isConstant, hr.isConstant, Bool.true_and, if_true]
    exact iff_of_true (clean_pure _ _) trivial

/-- **A shift** of a constant, by a constant of any of the types. -/
theorem clean_shift_iff (hl : left.Holds k a) (hr : right.Holds l b) (op : ArithmeticOp)
    (hshift : op = .LS ∨ op = .RS) :
    (arithmetic ANSIOnly op left right).Clean ↔ Foldable op k l a b := by
  have hli := hl.isIntegralType
  have hri := hr.isIntegralType
  have hfold := foldShift_of_holds (F := F) hl hr
  have hcount := shift_count_iff (k := k) (inRange_bounds hr.inRange)
  unfold Foldable arithmetic
  rcases hshift with rfl | rfl
  · unfold arithmetic.integral
    simp only [hli, hri, hfold, Bool.true_and, require_true, Sem.pure_bind]
    rw [clean_setInteger]
    unfold IntType.shl
    by_cases hb : 0 ≤ b ∧ b ≤ k.intType.bits
    · have hbits : (k.intType.bits : ℤ) ≤ Kind.Ulong.intType.max := by cases k <;> decide
      rw [IntType.convert_of_le hb.1 (hb.2.trans hbits)]
      by_cases hneg : k.intType.signed ∧ a < 0
      · rw [if_neg fun h => h.2.2 hneg]
        exact iff_of_false nofun fun h => (h.2.2 hneg.1).1.not_gt hneg.2
      · rw [if_pos ⟨hb.1, hb.2, hneg⟩, IntType.exists_result_iff, and_iff_right hb.1,
          and_iff_right hb.2]
        exact forall_congr' fun hs => (and_iff_right (not_lt.mp fun ha => hneg ⟨hs, ha⟩)).symm
    · refine iff_of_false ?_ fun h => hb ⟨h.1, h.2.1⟩
      rw [if_neg fun h => hb (hcount.mp ⟨h.1, h.2.1⟩)]
      nofun
  · unfold arithmetic.integral
    simp only [hli, hri, hfold, Bool.true_and, require_true, Sem.pure_bind]
    rw [clean_setInteger]
    unfold IntType.shr
    rw [← hcount]
    split_ifs with h
    · exact iff_of_true ⟨_, rfl⟩ h
    · exact iff_of_false nofun h

/-- **The conversions lead to one type**, in which the operator is applied. -/
theorem foldable_common (op : ArithmeticOp) (hshift : op ≠ .LS ∧ op ≠ .RS) :
    Foldable op (k.common l) (k.common l) ((k.common l).intType.convert a)
      ((k.common l).intType.convert b) ↔ Foldable op k l a b := by
  have hidem (x : ℤ) : (k.common l).intType.convert ((k.common l).intType.convert x) =
      (k.common l).intType.convert x :=
    IntType.convert_of_inRange (IntType.inRange_convert _ x)
  have hcommon (m : Kind) : m.common m = m := ite_self m
  unfold Foldable
  rw [hcommon]
  simp only [hidem]
  cases op with
  | LS => exact absurd rfl hshift.1
  | RS => exact absurd rfl hshift.2
  | add | sub | mul | div | mod | band | bxor | bor | ANDAND | OROR => exact Iff.rfl

/-- **A fold does no harm exactly where its operator is defined**, but for a
division by zero, which is reported: for two constants of any of the four
types; and the same for unary minus, which must not be applied to the least
number of a type with a sign. -/
theorem folding_is_defined_iff (hl : left.Holds k a) (hr : right.Holds l b) :
    (∀ op, (semCheckArithmetic ANSIOnly op left right).Clean ↔ Foldable op k l a b) ∧
    ((semCheckUnary .UMINUS left).Clean ↔ ¬ (k.intType.signed ∧ a = k.intType.min)) := by
  refine ⟨fun op => ?_, ?_⟩
  · unfold semCheckArithmetic
    rw [hl.usualUnaryConversions, Sem.pure_bind, hr.usualUnaryConversions, Sem.pure_bind]
    by_cases hshift : op = .LS ∨ op = .RS
    · rw [if_pos hshift, Sem.pure_bind]
      exact clean_shift_iff hl hr op hshift
    · rw [if_neg hshift, hl.usualBinaryConversions hr, Sem.pure_bind]
      rw [not_or] at hshift
      rw [← foldable_common op hshift]
      exact clean_arithmetic_iff (.holds_converted _ a) (.holds_converted _ b) op hshift
  · unfold semCheckUnary foldUnary
    simp only [isArithmeticType_of_holds hl, require_true, Sem.pure_bind, hl.isConstant, hl.kind,
      hl.constantValue, Bool.not_true, Bool.false_eq_true, if_false]
    have hneg : (∃ v, k.intType.sub 0 a = some v) ↔ ¬ (k.intType.signed ∧ a = k.intType.min) := by
      unfold IntType.sub
      rw [zero_sub, IntType.exists_result_iff, not_and]
      exact forall_congr' fun hs => IntType.inRange_neg_iff hs hl.inRange
    rw [← hneg]
    cases hv : k.intType.sub 0 a with
    | none => exact iff_of_false (fun ⟨_, _, hx, _⟩ => nomatch hx) nofun
    | some v => exact iff_of_true ⟨_, _, rfl, .inl rfl⟩ ⟨v, rfl⟩

end

/-- The least `int` by `-1` is not folded, by `1` it is. -/
theorem folding_is_defined_iff_int_min :
    let minimum : Node Floats.rational := Node.Holds.converted _ .Sint (-2147483648)
    let one : Node Floats.rational := Node.Holds.converted _ .Sint 1
    let minus_one : Node Floats.rational := Node.Holds.converted _ .Sint (-1)
    (semCheckArithmetic false .div minimum one).Clean ∧
      ¬ (semCheckArithmetic false .div minimum minus_one).Clean := by
  intro minimum one minus_one
  have hmin : minimum.Holds .Sint (-2147483648) := ⟨rfl, rfl, by decide⟩
  have hone : one.Holds .Sint 1 := ⟨rfl, rfl, by decide⟩
  have hminus : minus_one.Holds .Sint (-1) := ⟨rfl, rfl, by decide⟩
  rw [(folding_is_defined_iff hmin hone).1, (folding_is_defined_iff hmin hminus).1]
  exact ⟨fun h => absurd h.2.2 (by decide), fun h => h ⟨rfl, by decide, by decide⟩⟩

/-- `1 % 0` and `(-2147483647 - 1) / -1` end the run of the compiler in an
operation that C does not define. -/
theorem remainder_by_zero_faults :
    let one : Expr := .Const (.ofInt 1 (by decide))
    let zero : Expr := .Const (.ofInt 0 (by decide))
    let maximum : Expr := .Const (.ofInt 2147483647 (by decide))
    let minimum : Expr := .Arithmetic .sub (.Unary .UMINUS maximum) one
    (semCheckNode false (.Arithmetic .mod one zero) : Sem (Node .rational)) = .error .undefined ∧
      (semCheckNode false (.Arithmetic .div minimum (.Unary .UMINUS one)) :
        Sem (Node .rational)) = .error .undefined := by
  exact ⟨rfl, rfl⟩

end Cilk.ConstFold
