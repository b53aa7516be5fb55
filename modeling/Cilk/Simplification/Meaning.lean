import Cilk.MemoryProgram
import Cilk.Simplification.Model

/-!
# What an expression does

The meaning of an expression is a program that works on the memory: it reads
objects, and it acts on the memory where it stores, calls, fetches an argument with
`va_arg`, or reads a volatile object. Operands are evaluated from left to right. An
evaluation leads to a place: an object, a value that is in no object, what a
constructor makes, or a cast of a place. Following gcc, a cast of an lvalue is an
lvalue, a value is assigned to it by converting it to the type of the cast and
assigning the result to what is cast, and a comma is an lvalue if its last operand
is.

What values and objects are is a parameter, and the memory is any memory.
-/

namespace Cilk.Simplification

open Cilk.SideEffects (OpType IsAssignmentOp IsIncDecOp)

/-- An object of the type is volatile. An array is no object that is read. -/
def Ty.isVolatile : Ty → Bool
  | Prim volatile _ | Ptr volatile _ | Sdcl volatile _ | Udcl volatile _ | Edcl volatile _ =>
    volatile
  | Adcl _ | Fdcl _ => false
  | Tdef volatile _ type =>
    match type.base with
    | Adcl _ | Fdcl _ => false
    | _ => volatile || type.isVolatile

/-- **The values and objects of a machine.** Values know their types as far as the
operators need them. -/
structure Values where
  Value : Type
  Object : Type
  constant : Ty → String → Value
  ident : String → Object
  /-- The object that a value is kept in while a member of it is selected. -/
  temporary : Value → Object
  /-- Conversion to a type. -/
  conv : Ty → Value → Value
  unop : OpType → Value → Value
  binop : OpType → Value → Value → Value
  /-- The value that `++` or `--` leaves behind. -/
  step : OpType → Value → Value
  truth : Value → Bool
  bool : Bool → Value
  /-- `sizeof` or `__alignof__` an expression of the type. -/
  size : OpType → Option Ty → Value
  address : Object → Value
  deref : Value → Object
  member : Object → String → Object
  index : Value → List Value → Object
  /-- The value with these members or elements. -/
  construct : List Value → Value
  conv_conv : ∀ type v, conv type (conv type v) = conv type v
  deref_address : ∀ object, deref (address object) = object
  /-- `a[0]` is `*a`. -/
  index_zero : ∀ v, index v [constant (.Prim false "unsigned") "0"] = deref v

/-- What is read without a side effect. -/
inductive Reading (V : Values)
  | load (type : Ty) (object : V.Object)

/-- **The side effects.** The answer to a store is not looked at. -/
inductive Action (V : Values)
  /-- A volatile object is read. -/
  | load (type : Ty) (object : V.Object)
  | store (type : Ty) (object : V.Object) (value : V.Value)
  | call (name : V.Value) (args : List V.Value)
  | vaArg (type : Ty) (list : V.Object)

namespace Values

/-- What an evaluation does. It notes the operand of a cast on the left of a compound
assignment before it evaluates it. -/
abbrev Program (V : Values) (α : Type) : Type :=
  MemoryProgram (Reading V) (Action V) V.Value Node α

/-- A memory of these objects. -/
abbrev Memory (V : Values) := MemoryProgram.Memory (Reading V) (Action V) V.Value

variable (V : Values)

open MemoryProgram (ret)

/-! ## Places -/

/-- Where an evaluation leads. -/
inductive Place
  | object (type : Ty) (volatile : Bool) (object : V.Object)
  | value (v : V.Value)
  /-- What a constructor makes, which nothing else refers to. -/
  | literal (type : Ty) (v : V.Value)
  | cast (type : Ty) (place : Place)

variable {V}

/-- The type of a place that is no plain value. -/
def Place.type : V.Place → Option Ty
  | .object type _ _ => some type
  | .value _ => none
  | .literal type _ => some type
  | .cast type _ => some type

/-- The cast of a value is a value again. -/
def Place.castTo (type : Ty) : V.Place → V.Place
  | .value v => .value (V.conv type v)
  | place => .cast type place

/-- The value at a place. -/
def Place.read : V.Place → V.Program V.Value
  | .object type true o => .act (.load type o) ret
  | .object type false o => .read (.load type o) ret
  | .value v | .literal _ v => ret v
  | .cast type place => place.read >>= fun v => ret (V.conv type v)

/-- Assigning a value to a place, with the value of the assignment. -/
def Place.write : V.Place → V.Value → V.Program V.Value
  | .object type _ o, v => .act (.store type o (V.conv type v)) fun _ => ret (V.conv type v)
  | .value _, v => ret v
  | .literal type _, v => ret (V.conv type v)
  | .cast type place, v =>
    place.write (place.type.elim v fun t => V.conv t (V.conv type v)) >>= fun w =>
      ret (V.conv type w)

/-- The object behind a place. -/
def Place.base : V.Place → V.Object
  | .object _ _ o => o
  | .value v | .literal _ v => V.temporary v
  | .cast _ place => place.base

/-! ## What the operators do -/

/-- The value of what is evaluated. -/
def value (run : V.Program V.Place) : V.Program V.Value := run >>= Place.read

/-- The place of a value. -/
def result (v : V.Value) : V.Program V.Place := ret (.value v)

/-- An operator on one value. -/
def unary (f : V.Value → V.Value) (run : V.Program V.Place) : V.Program V.Place := do
  let v ← value run
  result (f v)

/-- An operator on two values. -/
def binary (f : V.Value → V.Value → V.Value) (left right : V.Program V.Place) :
    V.Program V.Place := do
  let v ← value left
  let w ← value right
  result (f v w)

/-- `?:`, and with it `&&` and `||`. -/
def choose (cond : V.Program V.Place) (true_ false_ : V.Value → V.Program V.Value) :
    V.Program V.Place :=
  value cond >>= fun v => (if V.truth v then true_ v else false_ v) >>= result

def truthOf (run : V.Program V.Place) : V.Program V.Value := do
  let v ← value run
  ret (V.bool (V.truth v))

/-- An assignment. -/
def assign (left right : V.Program V.Place) : V.Program V.Place := do
  let place ← left
  let v ← value right
  let w ← place.write v
  result w

/-- A compound assignment, of what `f` makes of the old value and that of the right
operand. -/
def compound (f : V.Value → V.Value → V.Value) (left right : V.Program V.Place) :
    V.Program V.Place := do
  let place ← left
  let old ← place.read
  let v ← value right
  let w ← place.write (f old v)
  result w

/-- An increment or a decrement. -/
def incDec (op : OpType) (run : V.Program V.Place) : V.Program V.Place := do
  let place ← run
  let old ← place.read
  let new ← place.write (V.step op old)
  result (if op = .POSTINC ∨ op = .POSTDEC then old else new)

def cast (type : Ty) (run : V.Program V.Place) : V.Program V.Place := do
  let place ← run
  ret (place.castTo type)

def addressOf (run : V.Program V.Place) : V.Program V.Place := do
  let place ← run
  result (V.address place.base)

/-- The type that is recorded, or `void`. -/
def recorded (type : Option Ty) : Ty := type.elim (.Prim false "void") Ty.base

/-- The type that is recorded is that of a volatile object. -/
def isVolatile : Option Ty → Bool
  | some type => type.isVolatile
  | none => false

/-- The object of the type that is recorded. -/
def objectOf (type : Option Ty) (object : V.Object) : V.Program V.Place :=
  ret (.object (recorded type) (isVolatile type) object)

/-- The object that a pointer leads to. -/
def indirect (type : Option Ty) (run : V.Program V.Place) : V.Program V.Place := do
  let v ← value run
  objectOf type (V.deref v)

def dot (type : Option Ty) (left : V.Program V.Place) (text : String) : V.Program V.Place := do
  let place ← left
  objectOf type (V.member place.base text)

def arrow (type : Option Ty) (left : V.Program V.Place) (text : String) :
    V.Program V.Place := do
  let v ← value left
  objectOf type (V.member (V.deref v) text)

/-- An element of an array, or of what a pointer leads to. -/
def element (type : Option Ty) (name : V.Program V.Place) (dims : V.Program (List V.Value)) :
    V.Program V.Place := do
  let v ← value name
  let vs ← dims
  objectOf type (V.index v vs)

def apply (name : V.Program V.Place) (args : V.Program (List V.Value)) : V.Program V.Place := do
  let f ← value name
  let vs ← args
  let v ← .act (.call f vs) ret
  result v

def vaArg (type : Ty) (run : V.Program V.Place) : V.Program V.Place := do
  let place ← run
  let v ← .act (.vaArg type place.base) ret
  result v

def compoundLiteral (type : Ty) (run : V.Program V.Place) : V.Program V.Place := do
  let v ← value run
  ret (.literal type (V.conv type v))

/-- A list between braces. -/
def initializer (exprs : V.Program (List V.Value)) : V.Program V.Place := do
  let vs ← exprs
  result (V.construct vs)

/-- A declaration with an initializer. -/
def declare (name : String) (type : Ty) (run : V.Program V.Place) : V.Program V.Place := do
  let v ← value run
  let _ ← .act (.store type (V.ident name) (V.conv type v)) ret
  result (V.bool false)

/-- A statement expression has the value of its last statement. -/
def block (decl stmts : V.Program (List V.Value)) : V.Program V.Place := do
  let _ ← decl
  let vs ← stmts
  result (vs.getLast?.getD (V.bool false))

/-! ## Laws of the operators -/

section Laws

variable {type : Ty} {l r : V.Program V.Place}

/-- All places that the evaluation leads to are objects or casts of objects, of one
type. -/
def LeadsTo (type : Ty) (run : V.Program V.Place) : Prop :=
  ∀ place, run.Results place → place.type = some type

theorem leadsTo_ret {place : V.Place} (h : place.type = some type) :
    LeadsTo type (ret place : V.Program V.Place) := by
  intro place' hplace
  cases hplace
  exact h

theorem leadsTo_bind {α : Type} {p : V.Program α} {f : α → V.Program V.Place}
    (h : ∀ a, LeadsTo type (f a)) : LeadsTo type (p >>= f) := by
  intro place hplace
  obtain ⟨a, -, ha⟩ := MemoryProgram.results_bind hplace
  exact h a place ha

theorem Place.castTo_of_type {place : V.Place} (h : place.type = some type) (T : Ty) :
    place.castTo T = .cast T place := by
  cases place with
  | value v => cases h
  | object | literal | cast => rfl

theorem Place.read_castTo (T : Ty) (place : V.Place) :
    (place.castTo T).read = place.read >>= fun v => ret (V.conv T v) := by
  cases place <;> rfl

theorem Place.write_cast (T : Ty) (place : V.Place) (v : V.Value) :
    (Place.cast T place).write v
      = place.write (place.type.elim v fun t => V.conv t (V.conv T v)) >>= fun w =>
          ret (V.conv T w) := rfl

theorem value_cast (T : Ty) : value (cast T r) = value r >>= fun v => ret (V.conv T v) := by
  unfold value cast
  rw [MemoryProgram.bind_assoc, MemoryProgram.bind_assoc]
  exact congrArg (r >>= ·) (funext fun place => Place.read_castTo T place)

theorem leadsTo_cast (T : Ty) (h : LeadsTo type l) : LeadsTo T (cast T l) := by
  intro place hplace
  obtain ⟨inner, hinner, hplace⟩ := MemoryProgram.results_bind hplace
  cases hplace
  rw [Place.castTo_of_type (h inner hinner)]
  rfl

/-- **Assigning to a cast is a cast of an assignment.** -/
theorem assign_cast (T : Ty) (hl : LeadsTo type l) :
    assign (cast T l) r = cast T (assign l (cast type (cast T r))) := by
  unfold assign
  rw [value_cast, value_cast]
  unfold cast result
  simp only [MemoryProgram.bind_assoc, MemoryProgram.ret_bind]
  refine MemoryProgram.bind_congr fun place hplace => ?_
  rw [Place.castTo_of_type (hl place hplace)]
  simp only [Place.write_cast, hl place hplace, MemoryProgram.bind_assoc, MemoryProgram.ret_bind]
  rfl

theorem arrow_addressOf (t : Option Ty) (text : String) :
    arrow t (addressOf l) text = dot t l text := by
  unfold arrow addressOf value dot result
  simp only [MemoryProgram.bind_assoc, MemoryProgram.ret_bind]
  refine congrArg (l >>= ·) (funext fun place => ?_)
  show objectOf t (V.member (V.deref (V.address place.base)) text) = _
  rw [V.deref_address]

end Laws

end Values

/-! ## Evaluation -/

/-- The name of a member. -/
def Node.text : Node → String
  | .Id text _ => text
  | _ => ""

def Node.isNull : Node → Bool
  | .NULL => true
  | _ => false

open MemoryProgram (ret note) in
mutual

/-- **Evaluating an expression**, or the left operand of a compound assignment. -/
def Values.eval (V : Values) : Node → Bool → V.Program V.Place
  | .NULL, _ | .Type _, _ => Values.result (V.bool false)
  | .Const type value, _ => Values.result (V.constant type.base value)
  | .Id text type, _ => Values.objectOf type (V.ident text)
  | .Binop op left right type, _ =>
    match op with
    | .ANDAND => Values.choose (V.eval left false)
        (fun _ => Values.truthOf (V.eval right false)) (fun _ => ret (V.bool false))
    | .OROR => Values.choose (V.eval left false)
        (fun _ => ret (V.bool true)) (fun _ => Values.truthOf (V.eval right false))
    | .dot => Values.dot type (V.eval left false) right.text
    | .ARROW => Values.arrow type (V.eval left false) right.text
    | .asgn => Values.assign (V.eval left false) (V.eval right false)
    | op =>
      match OpOfAssignmentOp op with
      | some op => Values.compound (V.binop op) (V.eval left true) (V.eval right false)
      | none => Values.binary (V.binop op) (V.eval left false) (V.eval right false)
  | .Unary op expr type, _ =>
    if IsIncDecOp op then Values.incDec op (V.eval expr false)
    else match op with
      | .ADDRESS => Values.addressOf (V.eval expr false)
      | .INDIR => Values.indirect type (V.eval expr false)
      | .SIZEOF | .ALIGNOF => Values.result (V.size op (NodeDataType expr))
      | op => Values.unary (V.unop op) (V.eval expr false)
  | .Cast type expr, false => Values.cast type.base (V.eval expr false)
  | .Cast type expr, true => note expr (Values.cast type.base (V.eval expr false))
  | .Comma before last, assigned => V.evalList before >>= fun _ => V.eval last assigned
  | .Constructor type initializerlist, _ =>
    Values.compoundLiteral type.base (V.eval initializerlist false)
  | .Ternary cond true_ false_ _, _ =>
    Values.choose (V.eval cond false)
      (fun v => if true_.isNull then ret v else Values.value (V.eval true_ false))
      (fun _ => Values.value (V.eval false_ false))
  | .Array name dims type, _ => Values.element type (V.eval name false) (V.evalList dims)
  | .Call name args, _ => Values.apply (V.eval name false) (V.evalList args)
  | .Initializer exprs, _ => Values.initializer (V.evalList exprs)
  | .ImplicitCast type expr, _ => Values.unary (V.conv type.base) (V.eval expr false)
  | .Block decl stmts _, _ => Values.block (V.evalList decl) (V.evalList stmts)
  | .Decl name type init, _ =>
    if init.isNull then Values.result (V.bool false)
    else Values.declare name type.base (V.eval init false)
  | .BuiltinVaArg expr type, _ => Values.vaArg type.base (V.eval expr false)

/-- The values of the expressions of a list. -/
def Values.evalList (V : Values) : Nodes → V.Program (List V.Value)
  | .nil => ret []
  | .cons head tail =>
    Values.value (V.eval head false) >>= fun v => V.evalList tail >>= fun vs => ret (v :: vs)

end

/-- The value of an expression. -/
def Values.valueOf (V : Values) (n : Node) : V.Program V.Value := Values.value (V.eval n false)

/-- What is noted before it is evaluated, is evaluated like this. -/
def Values.operand (V : Values) (n : Node) : V.Program V.Place := V.eval n false

theorem Values.arrow_element {V : Values} (type element : Option Ty) (l : V.Program V.Place)
    (text : String) :
    Values.arrow type l text
      = Values.dot type (Values.element element l (V.evalList (.cons zero .nil))) text := by
  unfold Values.arrow Values.dot Values.element
  rw [MemoryProgram.bind_assoc]
  refine congrArg (Values.value l >>= ·) (funext fun v => ?_)
  show Values.objectOf type (V.member (V.deref v) text)
    = Values.objectOf type (V.member (V.index v _) text)
  rw [← V.index_zero]
  rfl

/-- **The same value and the same memory**, with every memory and in every state of
it. -/
def SameMeaning (V : Values) (n m : Node) : Prop :=
  ∀ (M : V.Memory) (s : M.State), M.run (V.valueOf n) s = M.run (V.valueOf m) s

/-- **A run evaluates nothing twice that changes the memory**: it leaves the memory as
it is wherever it evaluates what is cast on the left of a compound assignment. -/
def Values.Quiet (V : Values) (n : Node) (M : V.Memory) (s : M.State) : Prop :=
  ∀ x ∈ M.notes (V.valueOf n) s, M.Quiet V.operand x

end Cilk.Simplification
