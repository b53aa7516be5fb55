import Cilk.ConstFold.Model

/-!
# What C says of a constant expression

The type of an expression and its value, by the rules of the language: the
integer promotions, the usual arithmetic conversions, and the conversions of
casts. `meaning` is `none` for what is not a constant expression of scalar type,
pointer arithmetic among it; the value is missing where the language leaves it
undefined.

The types have the widths of an LP64 machine, where `char` has a sign and
`size_t` is `unsigned long`. An enumeration is compatible with an integer type:
with `gcc` this is `unsigned` where none of its constants is negative and else
`int`, but attributes may make it a narrower one. A conversion to a type with a
sign wraps around. A number of type `long double` has no value here; the
compiler attaches none.
-/

namespace Cilk.ConstFold

variable {F : Floats}

/-! ## Types -/

/-- The scalar types; to what a pointer points makes no difference. -/
inductive CType
  | arith (basic : BasicType)
  | enum (tag : ℕ) (compatible : BasicType)
  | pointer
  deriving DecidableEq

def TypeNode.cType : TypeNode → CType
  | Prim b => .arith b
  | Ptr _ => .pointer
  | Edcl tag compatible => .enum tag compatible

/-- The integer types. -/
def BasicType.intType : BasicType → Option IntType
  | Char | Schar => some ⟨7, true⟩
  | Uchar => some ⟨7, false⟩
  | Sshort => some ⟨15, true⟩
  | Ushort => some ⟨15, false⟩
  | Sint => some ⟨31, true⟩
  | Uint => some ⟨31, false⟩
  | Slong | Slonglong => some ⟨63, true⟩
  | Ulong | Ulonglong => some ⟨63, false⟩
  | Float | Double | Longdouble | Void => none

/-- The numbers of a pointer. -/
def pointerType : IntType := ⟨63, false⟩

/-- The rank of an integer type that is not promoted. -/
def BasicType.conversionRank : BasicType → ℕ
  | Slong | Ulong => 1
  | Slonglong | Ulonglong => 2
  | _ => 0

/-- The type without sign that goes with one that has a sign. -/
def BasicType.unsigned : BasicType → BasicType
  | Slong => Ulong
  | Slonglong => Ulonglong
  | Sint => Uint
  | b => b

/-- **The integer promotions**: what `int` can represent becomes an `int`. -/
def BasicType.promoted : BasicType → Option BasicType
  | Void => none
  | b =>
    match b.intType with
    | some t => some (if t.bits + (if t.signed then 0 else 1) ≤ 31 then Sint else b)
    | none => some b

def CType.promoted : CType → Option BasicType
  | arith b => b.promoted
  | enum _ b => b.promoted
  | pointer => none

/-- **The usual arithmetic conversions**, of promoted types. -/
def usualType (b₁ b₂ : BasicType) : BasicType :=
  if b₁ = .Longdouble ∨ b₂ = .Longdouble then .Longdouble
  else if b₁ = .Double ∨ b₂ = .Double then .Double
  else if b₁ = .Float ∨ b₂ = .Float then .Float
  else match b₁.intType, b₂.intType with
    | some t₁, some t₂ =>
      if t₁.signed = t₂.signed then
        if b₁.conversionRank < b₂.conversionRank then b₂ else b₁
      else
        let (s, signed, u, unsigned) :=
          if t₁.signed then (b₁, t₁, b₂, t₂) else (b₂, t₂, b₁, t₁)
        if s.conversionRank ≤ u.conversionRank then u
        else if unsigned.max ≤ signed.max then s
        else s.unsigned
    | _, _ => b₁

def CType.isInteger : CType → Bool
  | arith b => b.intType.isSome
  | enum _ b => b.intType.isSome
  | pointer => false

def CType.isScalar : CType → Bool
  | arith b => b ≠ .Void
  | enum _ b => b.intType.isSome
  | pointer => true

def BasicType.size : BasicType → ℤ
  | Float => 4
  | Double => 8
  | Longdouble => 16
  | b =>
    match b.intType with
    | some t => (t.bits + 1) / 8
    | none => 1

def CType.size : CType → ℤ
  | arith b => b.size
  | enum _ b => b.size
  | pointer => 8

/-! ## Values -/

/-- A value, the address in a pointer being a number. -/
inductive Value (F : Floats)
  | int (v : ℤ)
  | float (f : F.float.Carrier)
  | double (d : F.double.Carrier)

/-- Conversion of a number to an arithmetic type; a floating one has to fit,
without its fraction, in an integer type. -/
def convertBasic (b : BasicType) : Value F → Option (Value F)
  | .int v =>
    match b.intType, b with
    | some t, _ => some (.int (t.convert v))
    | none, .Float => some (.float (F.float.ofInt v))
    | none, .Double => some (.double (F.double.ofInt v))
    | none, _ => none
  | .float f =>
    match b.intType, b with
    | some t, _ => ((F.float.trunc f).filter fun v => t.InRange v).map .int
    | none, .Float => some (.float f)
    | none, .Double => some (.double (F.widen f))
    | none, _ => none
  | .double d =>
    match b.intType, b with
    | some t, _ => ((F.double.trunc d).filter fun v => t.InRange v).map .int
    | none, .Float => some (.float (F.narrow d))
    | none, .Double => some (.double d)
    | none, _ => none

/-- **Conversion** to a scalar type. -/
def convertTo : CType → Value F → Option (Value F)
  | .arith b, v => convertBasic b v
  | .enum _ b, v => convertBasic b v
  | .pointer, .int v => some (.int (pointerType.convert v))
  | .pointer, _ => none

/-- Whether a value counts as true. -/
def Value.truth : Value F → Bool
  | .int v => v ≠ 0
  | .float f => !F.float.eq f (F.float.ofInt 0)
  | .double d => !F.double.eq d (F.double.ofInt 0)

def Value.ofBool (b : Bool) : Value F := .int (if b then 1 else 0)

/-! ## Operators -/

/-- The value of unary minus, in a promoted type. -/
def negate (b : BasicType) : Value F → Option (Value F)
  | .int v => do
    let t ← b.intType
    let v ← t.neg v
    pure (.int v)
  | .float f => some (.float (F.float.neg f))
  | .double d => some (.double (F.double.neg d))

/-- The complement, in a promoted type. -/
def complement (b : BasicType) : Value F → Option (Value F)
  | .int v => do
    let t ← b.intType
    let v ← t.not v
    pure (.int v)
  | _ => none

/-- The operators on integers of a type. -/
def ArithmeticOp.int : ArithmeticOp → IntType → ℤ → ℤ → Option ℤ
  | mul, t => t.mul
  | div, t => t.div
  | mod, t => t.mod
  | add, t => t.add
  | sub, t => t.sub
  | LS, t => t.shl
  | RS, t => t.shr
  | band, t => t.and
  | bxor, t => t.xor
  | bor, t => t.or
  | ANDAND, _ | OROR, _ => fun _ _ => none

/-- The operators on numbers of a floating format. -/
def ArithmeticOp.floating (A : Floating) : ArithmeticOp → A.Carrier → A.Carrier → Option A.Carrier
  | mul, x, y => some (A.mul x y)
  | div, x, y => some (A.div x y)
  | add, x, y => some (A.add x y)
  | sub, x, y => some (A.sub x y)
  | _, _, _ => none

/-- The value of an operator, in the type of its operands. -/
def ArithmeticOp.apply (op : ArithmeticOp) (b : BasicType) : Value F → Value F → Option (Value F)
  | .int x, .int y => do
    let t ← b.intType
    let v ← op.int t x y
    pure (.int v)
  | .float x, .float y => (op.floating F.float x y).map .float
  | .double x, .double y => (op.floating F.double x y).map .double
  | _, _ => none

def ComparisonOp.apply (op : ComparisonOp) : Value F → Value F → Option (Value F)
  | .int x, .int y => some (.ofBool (op.int x y))
  | .float x, .float y => some (.ofBool (op.floating F.float x y))
  | .double x, .double y => some (.ofBool (op.floating F.double x y))
  | _, _ => none

/-- A type, and a value where it is defined. -/
abbrev Typed (F : Floats) := CType × Option (Value F)

/-- The type of two arithmetic operands. -/
def commonType (t₁ t₂ : CType) : Option BasicType := do
  let b₁ ← t₁.promoted
  let b₂ ← t₂.promoted
  pure (usualType b₁ b₂)

/-- The values of two operands, converted to a type. -/
def commonValues (b : BasicType) (x y : Typed F) : Option (Value F × Value F) := do
  let v₁ ← x.2
  let v₂ ← y.2
  let v₁ ← convertBasic b v₁
  let v₂ ← convertBasic b v₂
  pure (v₁, v₂)

/-- The operators whose operands are converted to one type; all but the first
four want it to be an integer type. -/
def usualMeaning (op : ArithmeticOp) (x y : Typed F) : Option (Typed F) := do
  let b ← commonType x.1 y.1
  if b.intType.isSome ∨ op ∈ [.mul, .div, .add, .sub] then
    pure (.arith b, do
      let (v₁, v₂) ← commonValues b x y
      op.apply b v₁ v₂)
  else none

/-- The shifts, whose operands are promoted one by one. -/
def shiftMeaning (op : ArithmeticOp) (x y : Typed F) : Option (Typed F) := do
  let b₁ ← x.1.promoted
  let b₂ ← y.1.promoted
  if b₁.intType.isSome ∧ b₂.intType.isSome then
    pure (.arith b₁, do
      let v₁ ← x.2
      let v₂ ← y.2
      let v₁ ← convertBasic b₁ v₁
      let v₂ ← convertBasic b₂ v₂
      op.apply b₁ v₁ v₂)
  else none

/-- A logical operator; the value `shortcut` of the first operand decides. -/
def logicalMeaning (shortcut : Bool) (x y : Typed F) : Option (Typed F) :=
  if x.1.isScalar ∧ y.1.isScalar then
    some (.arith .Sint, do
      let v₁ ← x.2
      if v₁.truth = shortcut then pure (.ofBool shortcut)
      else do
        let v₂ ← y.2
        pure (.ofBool v₂.truth))
  else none

def arithmeticMeaning (op : ArithmeticOp) (x y : Typed F) : Option (Typed F) :=
  match op with
  | .LS | .RS => shiftMeaning op x y
  | .ANDAND => logicalMeaning false x y
  | .OROR => logicalMeaning true x y
  | _ => usualMeaning op x y

def comparisonMeaning (op : ComparisonOp) (x y : Typed F) : Option (Typed F) := do
  let b ← commonType x.1 y.1
  pure (.arith .Sint, do
    let (v₁, v₂) ← commonValues b x y
    op.apply v₁ v₂)

def unaryMeaning (op : UnaryOp) (x : Typed F) : Option (Typed F) :=
  match op with
  | .UMINUS => do
    let b ← x.1.promoted
    pure (.arith b, do
      let v ← x.2
      let v ← convertBasic b v
      negate b v)
  | .UPLUS => do
    let b ← x.1.promoted
    pure (.arith b, do
      let v ← x.2
      convertBasic b v)
  | .not =>
    if x.1.isScalar then
      some (.arith .Sint, do
        let v ← x.2
        pure (.ofBool !v.truth))
    else none
  | .bitnot => do
    let b ← x.1.promoted
    if b.intType.isSome then
      pure (.arith b, do
        let v ← x.2
        let v ← convertBasic b v
        complement b v)
    else none

/-- A null pointer constant. -/
def nullPointer (x : Typed F) : Bool :=
  match x with
  | (t, some (.int v)) => t.isInteger && v = 0
  | _ => false

/-- The type of a conditional expression. -/
def conditionalType (x y : Typed F) : Option CType :=
  match commonType x.1 y.1 with
  | some b => some (.arith b)
  | none =>
    if x.1 = .pointer ∧ (y.1 = .pointer ∨ nullPointer y) ∨ nullPointer x ∧ y.1 = .pointer then
      some .pointer
    else none

/-- A conditional expression. -/
def conditionalMeaning (c x y : Typed F) : Option (Typed F) := do
  let t ← conditionalType x y
  if c.1.isScalar then
    pure (t, do
      let v ← c.2
      let v ← if v.truth then x.2 else y.2
      convertTo t v)
  else none

/-- A cast: not between the floating types and the pointers. -/
def castMeaning (t : CType) (x : Typed F) : Option (Typed F) :=
  if t.isScalar ∧ x.1.isScalar ∧ (t = .pointer → x.1.isInteger ∨ x.1 = .pointer) ∧
      (x.1 = .pointer → t.isInteger ∨ t = .pointer) then
    some (t, do
      let v ← x.2
      convertTo t v)
  else none

/-- **The type and the value of a constant expression.** -/
def meaning : Expr → Option (Typed F)
  | .Const l => some (.arith l.kind.basic, some (.int l.val))
  | .Id _ init =>
    if Kind.Sint.intType.InRange init.val then some (.arith .Sint, some (.int init.val)) else none
  | .Unary op expr => do unaryMeaning op (← meaning expr)
  | .SizeofType type =>
    if type.cType.isScalar then some (.arith .Ulong, some (.int type.cType.size)) else none
  | .Sizeof expr => do
    let x : Typed F ← meaning expr
    pure (.arith .Ulong, some (.int x.1.size))
  | .Arithmetic op left right => do arithmeticMeaning op (← meaning left) (← meaning right)
  | .Comparison op left right => do comparisonMeaning op (← meaning left) (← meaning right)
  | .Cast type expr => do castMeaning type.cType (← meaning expr)
  | .Ternary cond cons alt => do
    conditionalMeaning (← meaning cond) (← meaning cons) (← meaning alt)
  | .TernaryOmitted cond alt => do
    let c ← meaning cond
    conditionalMeaning c c (← meaning alt)

end Cilk.ConstFold
