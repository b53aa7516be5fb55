import Cilk.Arithmetic

/-!
# Constant folding

What `sem-check.c` does to a constant expression, with the conversions of
`conversions.c` and the folding of `constexpr.c`: from the expression as the
parser builds it, the type of its node and the constant that is attached to it.

The folding is done with the operators of the host, on the host's own `int`,
`unsigned`, `long` and `unsigned long`; `config.h` takes these for those of the
target too. They have the widths of an LP64 machine here. An operation that C
leaves undefined ends the run, and so does an assertion that fails.

Constants of a floating type come up between casts. The two formats and their
operators are a parameter.
-/

namespace Cilk.ConstFold

/-! ## Types -/

/-- `BasicType`, of the types of expressions. -/
inductive BasicType
  | Char | Schar | Uchar | Sshort | Ushort | Sint | Uint | Slong | Ulong | Slonglong | Ulonglong
  | Float | Double | Longdouble
  | Void
  deriving DecidableEq

/-- A type node, without its qualifiers. -/
inductive TypeNode
  | Prim (basic : BasicType)
  | Ptr (type : TypeNode)
  /-- An enumeration. The check does not look at the type that the compiler of the
  target takes for it, `compatible`. -/
  | Edcl (tag : ℕ) (compatible : BasicType)
  deriving DecidableEq

/-- The four types that an integer constant is kept in. -/
inductive Kind
  | Sint | Uint | Slong | Ulong
  deriving DecidableEq

/-- The host's type for it. -/
def Kind.intType : Kind → IntType
  | .Sint => ⟨31, true⟩
  | .Uint => ⟨31, false⟩
  | .Slong => ⟨63, true⟩
  | .Ulong => ⟨63, false⟩

def Kind.basic : Kind → BasicType
  | .Sint => .Sint
  | .Uint => .Uint
  | .Slong => .Slong
  | .Ulong => .Ulong

def BasicType.kind : BasicType → Option Kind
  | .Sint => some .Sint
  | .Uint => some .Uint
  | .Slong => some .Slong
  | .Ulong => some .Ulong
  | _ => none

theorem kind_basic (k : Kind) : k.basic.kind = some k := by
  cases k <;> rfl

theorem inRange_bounds {k : Kind} {v : ℤ} (h : k.intType.InRange v) :
    -2 ^ 63 ≤ v ∧ v ≤ 2 ^ 64 - 1 :=
  ⟨le_trans (by cases k <;> decide) h.1, h.2.trans (by cases k <;> decide)⟩

/-- **A negative number of bits is read as a great one**, of any type. -/
theorem shift_count_iff {k : Kind} {b : ℤ} (hb : -2 ^ 63 ≤ b ∧ b ≤ 2 ^ 64 - 1) :
    (0 ≤ Kind.Ulong.intType.convert b ∧ Kind.Ulong.intType.convert b ≤ k.intType.bits) ↔
      0 ≤ b ∧ b ≤ k.intType.bits := by
  have hcount : Kind.Ulong.intType.convert b = b % 2 ^ 64 := by
    show (b - 0) % 2 ^ 64 + 0 = _
    rw [sub_zero, add_zero]
  have hbits : k.intType.bits ≤ 63 := by cases k <;> decide
  rw [hcount]
  omega

namespace TypeNode

/-- Which of `TypeIsSint`, `TypeIsUint`, `TypeIsSlong`, `TypeIsUlong` holds. -/
def kind : TypeNode → Option Kind
  | Prim b => b.kind
  | _ => none

def isPointerType : TypeNode → Bool
  | Ptr _ => true
  | _ => false

def isVoidType (type : TypeNode) : Bool := type = Prim .Void

def isIntegralType : TypeNode → Bool
  | Prim b => b ∉ [.Float, .Double, .Longdouble, .Void]
  | Edcl _ _ => true
  | Ptr _ => false

def isFloatingType : TypeNode → Bool
  | Prim b => b ∈ [.Float, .Double, .Longdouble]
  | _ => false

def isArithmeticType (type : TypeNode) : Bool := type.isIntegralType || type.isFloatingType

def isScalarType (type : TypeNode) : Bool := type.isArithmeticType || type.isPointerType

def sansSign : TypeNode → TypeNode
  | Prim .Uchar | Prim .Schar | Prim .Char => Prim .Char
  | Prim .Ushort | Prim .Sshort => Prim .Ushort
  | Prim .Ulong | Prim .Slong => Prim .Ulong
  | Prim .Ulonglong | Prim .Slonglong => Prim .Ulonglong
  | Prim .Uint | Prim .Sint => Prim .Uint
  | type => type

/-- `BasicTypeOfConstantValue`: the type that constants of a type are kept
in. -/
def basicTypeOfConstantValue : TypeNode → BasicType
  | Ptr _ => .Uint
  | Edcl _ _ => .Sint
  | Prim .Char | Prim .Schar | Prim .Uchar | Prim .Sshort | Prim .Ushort => .Sint
  | Prim b => b

end TypeNode

/-! ## Constants -/

/-- A floating format with its operators. -/
structure Floating where
  Carrier : Type
  ofInt : ℤ → Carrier
  /-- The number without its fraction; there is none for an infinity. -/
  trunc : Carrier → Option ℤ
  neg : Carrier → Carrier
  add : Carrier → Carrier → Carrier
  sub : Carrier → Carrier → Carrier
  mul : Carrier → Carrier → Carrier
  div : Carrier → Carrier → Carrier
  lt : Carrier → Carrier → Bool
  le : Carrier → Carrier → Bool
  eq : Carrier → Carrier → Bool
  /-- Only zero is rounded to zero. -/
  ofInt_eq_zero (v : ℤ) : eq (ofInt v) (ofInt 0) = decide (v = 0)

/-- **The floating formats of the machine**, `float` and `double`. -/
structure Floats where
  float : Floating
  double : Floating
  widen : float.Carrier → double.Carrier
  narrow : double.Carrier → float.Carrier
  /-- Only zero is widened to zero. -/
  widen_eq_zero (x : float.Carrier) :
    double.eq (widen x) (double.ofInt 0) = float.eq x (float.ofInt 0)

/-- The rational numbers, which need no rounding. -/
def Floating.rational : Floating where
  Carrier := ℚ
  ofInt v := v
  trunc x := some (x.num.tdiv x.den)
  neg x := -x
  add x y := x + y
  sub x y := x - y
  mul x y := x * y
  div x y := x / y
  lt x y := x < y
  le x y := x ≤ y
  eq x y := x = y
  ofInt_eq_zero _ := decide_eq_decide.mpr Int.cast_inj

/-- Formats for runs on numbers that need no rounding. -/
def Floats.rational : Floats where
  float := .rational
  double := .rational
  widen := id
  narrow := id
  widen_eq_zero _ := rfl

variable {F : Floats}

/-- The integer constants of a program text, as the lexer leaves them. -/
structure Literal where
  kind : Kind
  val : ℤ
  inRange : kind.intType.InRange val

/-- A literal without a suffix. -/
def Literal.ofInt (v : ℤ) (h : Kind.Sint.intType.InRange v) : Literal := ⟨.Sint, v, h⟩

/-- A node `Const`: its type, and the member of the union `value` that goes
with it. -/
inductive Const (F : Floats)
  | int (kind : Kind) (v : ℤ)
  | float (f : F.float.Carrier)
  | double (d : F.double.Carrier)

/-- `u.Const.type`. -/
def Const.basic : Const F → BasicType
  | int k _ => k.basic
  | float _ => .Float
  | double _ => .Double

/-- An expression after the check: its `NodeDataType`, and what
`NodeGetConstantValue` returns for it. -/
structure Node (F : Floats) where
  type : TypeNode
  value : Option (Const F)

/-- `NodeIsConstant`. -/
def Node.isConstant (node : Node F) : Bool := node.value.isSome

/-! ## Runs of the check -/

/-- How a run of the compiler ends early. -/
inductive Fault
  /-- In an operation of the host that C does not define. -/
  | undefined
  /-- In an assertion, or `FAIL`. -/
  | failed
  deriving DecidableEq

/-- A computation of the check, with the errors it reports. -/
def Sem (α : Type) : Type := Except Fault (α × List String)

namespace Sem

variable {α β : Type}

instance : Monad Sem where
  pure a := .ok (a, [])
  bind x f :=
    match x with
    | .error fault => .error fault
    | .ok (a, reported) =>
      match f a with
      | .error fault => .error fault
      | .ok (b, more) => .ok (b, reported ++ more)

def fail (fault : Fault) : Sem α := .error fault

/-- `SyntaxErrorCoord`. -/
def syntaxError (message : String) : Sem Unit := .ok ((), [message])

/-- An error where a condition does not hold. -/
def require (condition : Bool) (message : String) : Sem Unit :=
  if condition then pure () else syntaxError message

/-- What the host computes, where that is defined. -/
def host (x : Option α) : Sem α :=
  match x with
  | some a => pure a
  | none => fail .undefined

/-- What is computed, if the run does not end early. -/
def value (x : Sem α) : Option α :=
  match x with
  | .ok (a, _) => some a
  | .error _ => none

@[simp] theorem value_pure (a : α) : (pure a : Sem α).value = some a := rfl

@[simp] theorem value_fail (fault : Fault) : (fail fault : Sem α).value = none := rfl

@[simp] theorem value_bind (x : Sem α) (f : α → Sem β) :
    (x >>= f).value = x.value.bind fun a => (f a).value := by
  cases x with
  | error fault => rfl
  | ok p =>
    show Sem.value (match f p.1 with
      | .error fault => .error fault
      | .ok (b, more) => .ok (b, p.2 ++ more)) = (f p.1).value
    cases f p.1 <;> rfl

theorem pure_bind (a : α) (f : α → Sem β) : (pure a : Sem α) >>= f = f a := by
  show (match f a with
    | .error fault => .error fault
    | .ok (b, more) => .ok (b, [] ++ more) : Sem β) = f a
  cases f a <;> rfl

@[simp] theorem value_require (condition : Bool) (message : String) :
    (require condition message).value = some () := by
  cases condition <;> rfl

@[simp] theorem value_syntaxError (message : String) :
    (syntaxError message).value = some () := rfl

@[simp] theorem value_host (x : Option α) : (host x).value = x := by
  cases x <;> rfl

end Sem

open Sem TypeNode

/-! ## Values of constant nodes -/

namespace Node

/-- `NodeConstantSintValue`, `NodeConstantUintValue`, `NodeConstantSlongValue`,
`NodeConstantUlongValue`. -/
def constantValue (node : Node F) (kind : Kind) : Sem ℤ :=
  match node.value with
  | some (.int k v) => if k = kind then pure v else fail .failed
  | _ => fail .failed

def constantFloatValue (node : Node F) : Sem F.float.Carrier :=
  match node.value with
  | some (.float f) => pure f
  | _ => fail .failed

def constantDoubleValue (node : Node F) : Sem F.double.Carrier :=
  match node.value with
  | some (.double d) => pure d
  | _ => fail .failed

/-- `NodeConstantIntegralValue`, an `unsigned long`. -/
def constantIntegralValue (node : Node F) : Sem ℤ :=
  match node.value with
  | some (.int _ v) => pure (Kind.Ulong.intType.convert v)
  | _ => fail .failed

/-- A number of a floating format as a number of an integer type. -/
def truncate (A : Floating) (kind : Kind) (x : A.Carrier) : Option ℤ :=
  (A.trunc x).filter fun v => kind.intType.InRange v

/-- `NodeConstantBooleanValue`: `Bool` is `int`, and every constant is converted
to it. -/
def constantBooleanValue (node : Node F) : Sem Bool :=
  match node.value with
  | some (.int _ v) => pure (Kind.Sint.intType.convert v ≠ 0)
  | some (.float f) => do
    let v ← host (truncate F.float .Sint f)
    pure (v ≠ 0)
  | some (.double d) => do
    let v ← host (truncate F.double .Sint d)
    pure (v ≠ 0)
  | none => fail .failed

/-- `IsConstantZero`. -/
def isConstantZero (node : Node F) : Bool :=
  match node.value with
  | some (.int _ v) => v = 0
  | some (.float f) => F.float.eq f (F.float.ofInt 0)
  | some (.double d) => F.double.eq d (F.double.ofInt 0)
  | none => false

end Node

/-! ## `ConstFoldCast` -/

/-- The arms for the destination, of an integer. -/
def castInteger (to_basic : BasicType) (eval : ℤ) : Sem (Const F) :=
  match to_basic.kind, to_basic with
  | some k, _ => pure (.int k (k.intType.convert eval))
  | none, .Float => pure (.float (F.float.ofInt eval))
  | none, .Double => pure (.double (F.double.ofInt eval))
  | none, _ => fail .failed

/-- The same of a `float`. -/
def castFloat (to_basic : BasicType) (eval : F.float.Carrier) : Sem (Const F) :=
  match to_basic.kind, to_basic with
  | some k, _ => do
    let v ← host (Node.truncate F.float k eval)
    pure (.int k v)
  | none, .Float => pure (.float eval)
  | none, .Double => pure (.double (F.widen eval))
  | none, _ => fail .failed

/-- The same of a `double`. -/
def castDouble (to_basic : BasicType) (eval : F.double.Carrier) : Sem (Const F) :=
  match to_basic.kind, to_basic with
  | some k, _ => do
    let v ← host (Node.truncate F.double k eval)
    pure (.int k v)
  | none, .Float => pure (.float (F.narrow eval))
  | none, .Double => pure (.double eval)
  | none, _ => fail .failed

/-- The arms for the constant. -/
def castConstant (from_basic to_basic : BasicType) (expr : Node F) : Sem (Const F) :=
  match from_basic.kind, from_basic with
  | some k, _ => do castInteger to_basic (← expr.constantValue k)
  | none, .Float => do castFloat to_basic (← expr.constantFloatValue)
  | none, .Double => do castDouble to_basic (← expr.constantDoubleValue)
  | none, _ => fail .failed

/-- `ConstFoldCast`: the constant that is attached to a cast of `expr`. -/
def constFoldCast (to_type : TypeNode) (expr : Node F) : Sem (Option (Const F)) :=
  if !expr.isConstant then pure none
  else if to_type.isScalarType && expr.type.isScalarType then
    let to_basic := to_type.basicTypeOfConstantValue
    if to_basic ∈ [.Slonglong, .Ulonglong, .Longdouble] then pure none
    else do
      let value ← castConstant expr.type.basicTypeOfConstantValue to_basic expr
      pure (some value)
  else pure none

/-! ## Conversions -/

def UCHAR_TO_INT_OVF : Bool := false

def USHORT_TO_INT_OVF : Bool := false

/-- `ImplicitConversions`. -/
def implicitConversions (expr : Node F) (to_type : TypeNode) : Sem (Node F) := do
  let value ← constFoldCast to_type expr
  pure ⟨to_type, value⟩

/-- `UsualUnaryConversions`. -/
def usualUnaryConversions (node : Node F) (f_to_d : Bool) : Sem (Node F) :=
  match node.type with
  | Prim .Char | Prim .Schar | Prim .Sshort => implicitConversions node (Prim .Sint)
  | Prim .Uchar =>
    implicitConversions node (if UCHAR_TO_INT_OVF then Prim .Uint else Prim .Sint)
  | Prim .Ushort =>
    implicitConversions node (if USHORT_TO_INT_OVF then Prim .Uint else Prim .Sint)
  | Prim .Float => if f_to_d then implicitConversions node (Prim .Double) else pure node
  | _ => pure node

/-- The order of the types in the table of `UsualBinaryConversions`: an operand
of a type before that of the other one is converted to it. -/
def usualRank : BasicType → Option ℕ
  | .Sint => some 0
  | .Uint => some 1
  | .Slong => some 2
  | .Ulong => some 3
  | .Slonglong => some 4
  | .Ulonglong => some 5
  | .Float => some 6
  | .Double => some 7
  | .Longdouble => some 8
  | _ => none

/-- `UsualBinaryConversions`. An enumeration is left as it is. -/
def usualBinaryConversions (node1 node2 : Node F) : Sem (Node F × Node F) :=
  match node1.type, node2.type with
  | Prim btype1, Prim btype2 =>
    match usualRank btype1, usualRank btype2 with
    | some r1, some r2 =>
      if r1 < r2 then do
        let node1 ← implicitConversions node1 (Prim btype2)
        pure (node1, node2)
      else if r2 < r1 then do
        let node2 ← implicitConversions node2 (Prim btype1)
        pure (node1, node2)
      else pure (node1, node2)
    | _, _ => fail .failed
  | _, _ => pure (node1, node2)

/-- `UsualPointerConversions`. -/
def usualPointerConversions (ANSIOnly : Bool) (node1 node2 : Node F) (allow_void_or_zero : Bool) :
    Sem (Node F × Node F) :=
  let convert1 := do
    let node1 ← implicitConversions node1 node2.type
    pure (node1, node2)
  let convert2 := do
    let node2 ← implicitConversions node2 node1.type
    pure (node1, node2)
  match node1.type, node2.type with
  | Ptr basetype1, Ptr basetype2 =>
    if basetype1 = basetype2 then pure (node1, node2)
    else if !ANSIOnly && basetype1.sansSign = basetype2.sansSign then do
      let newtype := Ptr basetype1.sansSign
      let node1 ← implicitConversions node1 newtype
      let node2 ← implicitConversions node2 newtype
      pure (node1, node2)
    else if allow_void_or_zero && basetype1.isVoidType then convert2
    else if allow_void_or_zero && basetype2.isVoidType then convert1
    else do
      syntaxError "operands have incompatible pointer types"
      pure (node1, node2)
  | type1, type2 =>
    if allow_void_or_zero && type1.isPointerType && node2.isConstantZero then convert2
    else if allow_void_or_zero && type2.isPointerType && node1.isConstantZero then convert1
    else do
      syntaxError "operands have incompatible types"
      pure (node1, node2)

/-- `ConditionalConversions`; the type is that of the first operand after
it. -/
def conditionalConversions (ANSIOnly : Bool) (node1 node2 : Node F) : Sem (Node F × Node F) :=
  let type1 := node1.type
  let type2 := node2.type
  if type1.isArithmeticType && type2.isArithmeticType then usualBinaryConversions node1 node2
  else if type1.isVoidType && type2.isVoidType then pure (node1, node2)
  else if type1.isPointerType || type2.isPointerType then
    usualPointerConversions ANSIOnly node1 node2 true
  else if type1.isVoidType || type2.isVoidType then
    if ANSIOnly then do
      syntaxError "ISO C forbids conditional expr with only one void side"
      pure (node1, node2)
    else if type1.isVoidType then do
      let node2 ← implicitConversions node2 (Prim .Void)
      pure (node1, node2)
    else do
      let node1 ← implicitConversions node1 (Prim .Void)
      pure (node1, node2)
  else do
    syntaxError "cons and alt clauses must have compatible types"
    pure (node1, node2)

/-- `CastConversions`, as far as there are such types: an error where nothing
of the one type can be converted to the other. -/
def castConversions (expr : Node F) (to_type : TypeNode) : Sem Unit :=
  if to_type.isVoidType then pure ()
  else
    let rtype := match expr.type with
      | Edcl _ _ => Prim .Sint
      | type => type
    let ltype := match to_type with
      | Edcl _ _ => Prim .Sint
      | type => type
    require (rtype.isArithmeticType && ltype.isArithmeticType ||
        rtype.isPointerType && ltype.isPointerType ||
        rtype.isIntegralType && ltype.isPointerType ||
        rtype.isPointerType && ltype.isIntegralType)
      "operands have incompatible types"

/-- `NodeSizeof`, with the sizes of `config.h`. -/
def nodeSizeof (ANSIOnly : Bool) : TypeNode → Sem ℤ
  | Prim .Char | Prim .Schar | Prim .Uchar => pure 1
  | Prim .Sshort | Prim .Ushort => pure 2
  | Prim .Sint | Prim .Uint => pure 4
  | Prim .Slong | Prim .Ulong => pure 8
  | Prim .Slonglong | Prim .Ulonglong => pure 8
  | Prim .Float => pure 4
  | Prim .Double => pure 8
  | Prim .Longdouble => pure 16
  | Prim .Void => do
    require (!ANSIOnly) "Can't compute size of type void"
    pure 1
  | Ptr _ => pure 8
  | Edcl _ _ => pure 4

/-! ## Operators -/

inductive UnaryOp
  | UMINUS | UPLUS | not | bitnot
  deriving DecidableEq

/-- The operators of `IsArithmeticOp`. -/
inductive ArithmeticOp
  | mul | div | mod | add | sub | LS | RS | band | bxor | bor | ANDAND | OROR
  deriving DecidableEq

/-- The operators of `IsComparisonOp`. -/
inductive ComparisonOp
  | lt | LE | gt | GE | EQ | NE
  deriving DecidableEq

/-- `Operator[op].text`. -/
def ArithmeticOp.text : ArithmeticOp → String
  | mul => "*"
  | div => "/"
  | mod => "%"
  | add => "+"
  | sub => "-"
  | LS => "<<"
  | RS => ">>"
  | band => "&"
  | bxor => "^"
  | bor => "|"
  | ANDAND => "&&"
  | OROR => "||"

def ComparisonOp.text : ComparisonOp → String
  | lt => "<"
  | LE => "<="
  | gt => ">"
  | GE => ">="
  | EQ => "=="
  | NE => "!="

/-- `NodeSetSintValue`, of what a condition is in C. -/
def Const.ofBool (b : Bool) : Const F := .int .Sint (if b then 1 else 0)

/-- The arms for the integer types, of a unary operator. -/
def foldUnary (expr : Node F) (int : Kind → ℤ → Sem (Const F))
    (float : F.float.Carrier → Option (Const F)) (double : F.double.Carrier → Option (Const F)) :
    Sem (Option (Const F)) :=
  if !expr.isConstant then pure none
  else match expr.type.kind with
    | some k => do
      let eval ← expr.constantValue k
      let value ← int k eval
      pure (some value)
    | none =>
      if expr.type = Prim .Float then do
        let eval ← expr.constantFloatValue
        pure (float eval)
      else if expr.type = Prim .Double then do
        let eval ← expr.constantDoubleValue
        pure (double eval)
      else pure none

/-- `SemCheckUnary`. -/
def semCheckUnary (op : UnaryOp) (expr : Node F) : Sem (Node F) :=
  match op with
  | .UMINUS => do
    require expr.type.isArithmeticType "operand must have arithmetic type: op \"-\""
    let value ← foldUnary expr
      (fun k eval => do
        let v ← host (k.intType.sub 0 eval)
        pure (.int k v))
      (fun eval => some (.float (F.float.sub (F.float.ofInt 0) eval)))
      (fun eval => some (.double (F.double.sub (F.double.ofInt 0) eval)))
    pure ⟨expr.type, value⟩
  | .UPLUS => do
    require expr.type.isArithmeticType "operand must have arithmetic type: op \"+\""
    pure expr
  | .not => do
    let expr ← usualUnaryConversions expr false
    let value ← foldUnary expr
      (fun _ eval => pure (.ofBool (eval = 0)))
      (fun eval => some (.ofBool (F.float.eq eval (F.float.ofInt 0))))
      (fun eval => some (.ofBool (F.double.eq eval (F.double.ofInt 0))))
    pure ⟨Prim .Sint, value⟩
  | .bitnot => do
    let expr ← usualUnaryConversions expr false
    require expr.type.isIntegralType "operand must have integral type: op \"~\""
    let value ← foldUnary expr
      (fun k eval => do
        let v ← host (k.intType.not eval)
        pure (.int k v))
      (fun _ => none) (fun _ => none)
    pure ⟨expr.type, value⟩

/-- `case SIZEOF` of `SemCheckUnary`, for the type of its operand. -/
def semCheckSizeof (ANSIOnly : Bool) (type : TypeNode) : Sem (Node F) := do
  let size ← nodeSizeof ANSIOnly type
  pure ⟨Prim .Uint, some (.int .Uint size)⟩

/-- The arms for the integer types, of a binary operator. -/
def foldIntegral (left right : Node F) (int : Kind → ℤ → ℤ → Sem (Option (Const F))) :
    Sem (Option (Const F)) :=
  if !(left.isConstant && right.isConstant) then pure none
  else match left.type.kind with
    | some k => do
      let lval ← left.constantValue k
      let rval ← right.constantValue k
      int k lval rval
    | none => pure none

/-- The arms for the integer types and the floating ones. -/
def foldArithmetic (left right : Node F) (int : Kind → ℤ → ℤ → Sem (Option (Const F)))
    (float : F.float.Carrier → F.float.Carrier → Sem (Option (Const F)))
    (double : F.double.Carrier → F.double.Carrier → Sem (Option (Const F))) :
    Sem (Option (Const F)) :=
  if !(left.isConstant && right.isConstant) then pure none
  else if left.type = Prim .Float then do
    let lval ← left.constantFloatValue
    let rval ← right.constantFloatValue
    float lval rval
  else if left.type = Prim .Double then do
    let lval ← left.constantDoubleValue
    let rval ← right.constantDoubleValue
    double lval rval
  else foldIntegral left right int

/-- The arms for the integer types, of a shift. -/
def foldShift (left right : Node F) (int : Kind → ℤ → ℤ → Sem (Option (Const F))) :
    Sem (Option (Const F)) :=
  if !(left.isConstant && right.isConstant) then pure none
  else do
    let rval ← right.constantIntegralValue
    match left.type.kind with
    | some k => do
      let lval ← left.constantValue k
      int k lval rval
    | none => pure none

/-- `NodeSetSintValue` and so on, of what an operator of the host computes. -/
def setInteger (operator : IntType → ℤ → ℤ → Option ℤ) (k : Kind) (lval rval : ℤ) :
    Sem (Option (Const F)) := do
  let v ← host (operator k.intType lval rval)
  pure (some (.int k v))

/-- The arms of `case '/'`. -/
def setQuotient (k : Kind) (lval rval : ℤ) : Sem (Option (Const F)) :=
  if rval = 0 then do
    syntaxError "attempt to divide constant by 0"
    pure none
  else setInteger IntType.div k lval rval

/-- The switch of `SemCheckArithmetic`, after the conversions. -/
def arithmetic (ANSIOnly : Bool) (op : ArithmeticOp) (left right : Node F) : Sem (Node F) :=
  match op with
  | .add => do
    let (left, right) :=
      if left.type.isIntegralType && right.type.isPointerType then (right, left) else (left, right)
    require (left.type.isArithmeticType && right.type.isArithmeticType ||
        left.type.isPointerType && right.type.isIntegralType)
      "operands must have arithmetic type or ptr/int: op \"+\""
    match left.type with
    | Ptr base => do
      let _ ← nodeSizeof ANSIOnly base
      pure ()
    | _ => pure ()
    let value ← foldArithmetic left right (setInteger IntType.add)
      (fun lval rval => pure (some (.float (F.float.add lval rval))))
      (fun lval rval => pure (some (.double (F.double.add lval rval))))
    pure ⟨left.type, value⟩
  | .sub => do
    require (left.type.isArithmeticType && right.type.isArithmeticType ||
        left.type.isPointerType && right.type.isIntegralType ||
        left.type.isPointerType && right.type.isPointerType)
      "operands have incompatible types: op \"-\""
    let value ← foldArithmetic left right (setInteger IntType.sub)
      (fun lval rval => pure (some (.float (F.float.sub lval rval))))
      (fun lval rval => pure (some (.double (F.double.sub lval rval))))
    let type :=
      if left.type.isPointerType && right.type.isPointerType then Prim .Sint else left.type
    pure ⟨type, value⟩
  | .mul => do
    require (left.type.isArithmeticType && right.type.isArithmeticType)
      "operands must have arithmetic type: op \"*\""
    let value ← foldArithmetic left right (setInteger IntType.mul)
      (fun lval rval => pure (some (.float (F.float.mul lval rval))))
      (fun lval rval => pure (some (.double (F.double.mul lval rval))))
    pure ⟨left.type, value⟩
  | .div => do
    require (left.type.isArithmeticType && right.type.isArithmeticType)
      "operands must have arithmetic type: op \"/\""
    let value ← foldArithmetic left right setQuotient
      (fun lval rval =>
        if F.float.eq rval (F.float.ofInt 0) then do
          syntaxError "attempt to divide constant by 0"
          pure none
        else pure (some (.float (F.float.div lval rval))))
      (fun lval rval =>
        if F.double.eq rval (F.double.ofInt 0) then do
          syntaxError "attempt to divide constant by 0"
          pure none
        else pure (some (.double (F.double.div lval rval))))
    pure ⟨left.type, value⟩
  | .mod => integral (foldIntegral left right (setInteger IntType.mod))
  | .LS => integral (foldShift left right (setInteger IntType.shl))
  | .RS => integral (foldShift left right (setInteger IntType.shr))
  | .band => integral (foldIntegral left right (setInteger IntType.and))
  | .bxor => integral (foldIntegral left right (setInteger IntType.xor))
  | .bor => integral (foldIntegral left right (setInteger IntType.or))
  | .ANDAND => pure ⟨Prim .Sint, logical fun lval rval => !lval && !rval⟩
  | .OROR => pure ⟨Prim .Sint, logical fun lval rval => !lval || !rval⟩
where
  /-- The cases of the operators on integers. -/
  integral (fold : Sem (Option (Const F))) : Sem (Node F) := do
    require (left.type.isIntegralType && right.type.isIntegralType)
      s!"operands must have integral type: op \"{op.text}\""
    let value ← fold
    pure ⟨left.type, value⟩
  /-- The cases of the logical operators, which are told whether an operand is
  zero. -/
  logical (connective : Bool → Bool → Bool) : Option (Const F) :=
    if left.isConstant && right.isConstant then
      some (.ofBool (connective left.isConstantZero right.isConstantZero))
    else none

/-- `SemCheckArithmetic`. -/
def semCheckArithmetic (ANSIOnly : Bool) (op : ArithmeticOp) (left right : Node F) :
    Sem (Node F) := do
  let left ← usualUnaryConversions left false
  let right ← usualUnaryConversions right false
  let (left, right) ←
    if op = .LS ∨ op = .RS then pure (left, right) else usualBinaryConversions left right
  arithmetic ANSIOnly op left right

/-- The operators of a comparison on integers. -/
def ComparisonOp.int : ComparisonOp → ℤ → ℤ → Bool
  | lt, lval, rval => lval < rval
  | LE, lval, rval => lval ≤ rval
  | gt, lval, rval => lval > rval
  | GE, lval, rval => lval ≥ rval
  | EQ, lval, rval => lval = rval
  | NE, lval, rval => lval ≠ rval

/-- The same on the numbers of a floating format. -/
def ComparisonOp.floating (A : Floating) : ComparisonOp → A.Carrier → A.Carrier → Bool
  | lt, lval, rval => A.lt lval rval
  | LE, lval, rval => A.le lval rval
  | gt, lval, rval => A.lt rval lval
  | GE, lval, rval => A.le rval lval
  | EQ, lval, rval => A.eq lval rval
  | NE, lval, rval => !A.eq lval rval

/-- `SemCheckComparison`. For equality a pointer may be compared with `void *`
and with zero. -/
def semCheckComparison (ANSIOnly : Bool) (op : ComparisonOp) (left right : Node F) :
    Sem (Node F) := do
  let left ← usualUnaryConversions left false
  let right ← usualUnaryConversions right false
  let (left, right) ← usualBinaryConversions left right
  let equality : Bool := op = .EQ ∨ op = .NE
  if left.type.isArithmeticType && right.type.isArithmeticType then
    let value ← foldArithmetic left right
      (fun _ lval rval => pure (some (.ofBool (op.int lval rval))))
      (fun lval rval => pure (some (.ofBool (op.floating F.float lval rval))))
      (fun lval rval => pure (some (.ofBool (op.floating F.double lval rval))))
    pure ⟨Prim .Sint, value⟩
  else if left.type.isPointerType && right.type.isPointerType then
    let _ ← usualPointerConversions ANSIOnly left right equality
    pure ⟨Prim .Sint, none⟩
  else
    require (equality ∧ (left.type.isPointerType ∧ right.isConstantZero ∨
        left.isConstantZero ∧ right.type.isPointerType))
      s!"operands have incompatible types: op \"{op.text}\""
    pure ⟨Prim .Sint, none⟩

/-- `ConstFoldTernary`; without a second operand the condition is the value. -/
def constFoldTernary (cond : Node F) (cons : Option (Node F)) (alt : Node F) :
    Sem (Option (Const F)) :=
  let cons := cons.getD cond
  if cond.isConstant && cons.isConstant && alt.isConstant then do
    let b ← cond.constantBooleanValue
    pure (if b then cons.value else alt.value)
  else pure none

/-- `SemCheckTernary` with three operands. The condition that is stored is the
one that the parser built, `stored`. -/
def semCheckTernary (ANSIOnly : Bool) (cond stored cons alt : Node F) : Sem (Node F) := do
  let _ ← usualUnaryConversions cond false
  let cons ← usualUnaryConversions cons false
  let alt ← usualUnaryConversions alt false
  let (cons, alt) ← conditionalConversions ANSIOnly cons alt
  let value ← constFoldTernary stored (some cons) alt
  pure ⟨cons.type, value⟩

/-- `SemCheckTernary` where the second operand is left out. -/
def semCheckTernaryOmitted (ANSIOnly : Bool) (cond alt : Node F) : Sem (Node F) := do
  let cond ← usualUnaryConversions cond false
  let alt ← usualUnaryConversions alt false
  let (cond, alt) ← conditionalConversions ANSIOnly cond alt
  let value ← constFoldTernary cond none alt
  pure ⟨cond.type, value⟩

/-! ## Expressions -/

/-- A constant expression as the parser builds it. -/
inductive Expr
  | Const (literal : Literal)
  /-- A constant of an enumeration, with the value of its initializer. -/
  | Id (text : String) (init : Literal)
  | Unary (op : UnaryOp) (expr : Expr)
  | SizeofType (type : TypeNode)
  | Sizeof (expr : Expr)
  | Arithmetic (op : ArithmeticOp) (left right : Expr)
  | Comparison (op : ComparisonOp) (left right : Expr)
  | Cast (type : TypeNode) (expr : Expr)
  | Ternary (cond cons alt : Expr)
  /-- A `Ternary` whose second operand is left out. -/
  | TernaryOmitted (cond alt : Expr)

/-- The initializer of a constant of an enumeration as `AssignEnumValues` leaves
it: only a value without sign is converted to `int`. -/
def assignEnumValue (init : Literal) : Const F :=
  match init.kind with
  | .Uint | .Ulong => .int .Sint (Kind.Sint.intType.convert init.val)
  | .Sint | .Slong => .int init.kind init.val

/-- The node that the parser built for the condition, after it was checked: the
result of the check, but for unary plus, which is replaced by its operand and
has no constant itself. -/
def stored : Expr → Node F → Node F
  | .Unary .UPLUS _, cond => { cond with value := none }
  | _, cond => cond

/-- **`SemCheckNode`**, on a constant expression. -/
def semCheckNode (ANSIOnly : Bool) : Expr → Sem (Node F)
  | .Const l => pure ⟨Prim l.kind.basic, some (.int l.kind l.val)⟩
  | .Id _ init => pure ⟨Prim .Sint, some (assignEnumValue init)⟩
  | .Unary op expr => do semCheckUnary op (← semCheckNode ANSIOnly expr)
  | .SizeofType type => semCheckSizeof ANSIOnly type
  | .Sizeof expr => do semCheckSizeof ANSIOnly (← semCheckNode ANSIOnly expr).type
  | .Arithmetic op left right => do
    let left ← semCheckNode ANSIOnly left
    let right ← semCheckNode ANSIOnly right
    semCheckArithmetic ANSIOnly op left right
  | .Comparison op left right => do
    let left ← semCheckNode ANSIOnly left
    let right ← semCheckNode ANSIOnly right
    semCheckComparison ANSIOnly op left right
  | .Cast type expr => do
    let expr ← semCheckNode ANSIOnly expr
    castConversions expr type
    let value ← constFoldCast type expr
    pure ⟨type, value⟩
  | .Ternary cond cons alt => do
    let node ← semCheckNode ANSIOnly cond
    let cons ← semCheckNode ANSIOnly cons
    let alt ← semCheckNode ANSIOnly alt
    semCheckTernary ANSIOnly node (stored cond node) cons alt
  | .TernaryOmitted cond alt => do
    let cond ← semCheckNode ANSIOnly cond
    let alt ← semCheckNode ANSIOnly alt
    semCheckTernaryOmitted ANSIOnly cond alt

end Cilk.ConstFold
