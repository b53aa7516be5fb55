import Cilk.ConstFold.Meaning
import Cilk.Literals.Model

/-!
# What C says of literals

A literal as C's grammar reads it, the text it is written as, and what the
language prescribes: the type and the value of an integer, the value of a
character, the bytes of a string.
-/

namespace Cilk.Literals

open ConstFold

/-- A digit, of any base up to sixteen, and whether it is a capital letter
where it is a letter. -/
structure Digit where
  val : Fin 16
  capital : Bool
  deriving DecidableEq

/-- How it is written. -/
def Digit.text (d : Digit) : ℕ :=
  if (d.val : ℕ) < 10 then byte '0' + d.val
  else (if d.capital then byte 'A' else byte 'a') + (d.val - 10)

/-- The number that digits make in a base. -/
def digitsValue (base : ℕ) (digits : List Digit) : ℕ :=
  digits.foldl (fun value d => base * value + d.val) 0

/-- How digits are written. -/
def digitsText (digits : List Digit) : List ℕ := digits.map Digit.text

/-! ## Characters and strings -/

/-- A simple escape sequence, by the name the language has for it. -/
inductive SimpleEscape
  | alert | backspace | formFeed | newLine | carriageReturn | horizontalTab | verticalTab
  | backslash | questionMark | singleQuote | doubleQuote
  deriving DecidableEq

namespace SimpleEscape

/-- The byte after the backslash. -/
def letter : SimpleEscape → ℕ
  | alert => byte 'a'
  | backspace => byte 'b'
  | formFeed => byte 'f'
  | newLine => byte 'n'
  | carriageReturn => byte 'r'
  | horizontalTab => byte 't'
  | verticalTab => byte 'v'
  | backslash => Literals.backslash
  | questionMark => byte '?'
  | singleQuote => apostrophe
  | doubleQuote => quotation

/-- The byte it stands for, in ASCII. -/
def value : SimpleEscape → ℕ
  | alert => 7
  | backspace => 8
  | formFeed => 12
  | newLine => 10
  | carriageReturn => 13
  | horizontalTab => 9
  | verticalTab => 11
  | backslash => 92
  | questionMark => 63
  | singleQuote => 39
  | doubleQuote => 34

end SimpleEscape

/-- One member of a character or string literal. -/
inductive CChar
  | plain (c : ℕ)
  | simple (e : SimpleEscape)
  | octal (digits : List Digit)
  | hex (digits : List Digit)
  deriving DecidableEq

namespace CChar

/-- How it is written. -/
def text : CChar → List ℕ
  | plain c => [c]
  | simple e => [backslash, e.letter]
  | octal digits => backslash :: digitsText digits
  | hex digits => backslash :: byte 'x' :: digitsText digits

/-- The byte it stands for. -/
def value : CChar → ℕ
  | plain c => c
  | simple e => e.value
  | octal digits => digitsValue 8 digits
  | hex digits => digitsValue 16 digits

/-- What the grammar asks of it between two quotes, and that an escape sequence
stands for a byte. -/
def Valid (quote : ℕ) : CChar → Prop
  | plain c => c ≠ 0 ∧ c < 256 ∧ c ≠ quote ∧ c ≠ backslash ∧ c ≠ byte '\n'
  | simple _ => True
  | octal digits => digits ≠ [] ∧ digits.length ≤ 3 ∧ (∀ d ∈ digits, (d.val : ℕ) < 8) ∧
      digitsValue 8 digits < 256
  | hex digits => digits ≠ [] ∧ digitsValue 16 digits < 256

/-- What it is in a wide literal: an escape sequence stands for a number that
`wchar_t` has room for. What other plain characters than those of ASCII stand
for there is left to the implementation. -/
def ValidWide (quote : ℕ) : CChar → Prop
  | plain c => c ≠ 0 ∧ c < 128 ∧ c ≠ quote ∧ c ≠ backslash ∧ c ≠ byte '\n'
  | simple _ => True
  | octal digits => digits ≠ [] ∧ digits.length ≤ 3 ∧ ∀ d ∈ digits, (d.val : ℕ) < 8
  | hex digits => digits ≠ [] ∧ digitsValue 16 digits < 2 ^ 32

/-- It is over where the byte `c` follows. -/
def EndsBefore (c : ℕ) : CChar → Prop
  | octal digits => digits.length = 3 ∨ ∀ d : Digit, (d.val : ℕ) < 8 → c ≠ d.text
  | hex _ => ∀ d : Digit, c ≠ d.text
  | _ => True

/-- An escape sequence. -/
def IsEscape : CChar → Prop
  | plain _ => False
  | _ => True

instance : DecidablePred IsEscape := fun e => by
  cases e <;> simp only [IsEscape] <;> infer_instance

end CChar

/-- The text of a sequence, without the quotes. -/
def textOf (es : List CChar) : List ℕ := es.flatMap CChar.text

/-- The members are valid, and each is as long as the text admits. -/
def WellFormed (quote : ℕ) : List CChar → Prop
  | [] => True
  | e :: es => e.Valid quote ∧ e.EndsBefore (at' (textOf es) 0) ∧ WellFormed quote es

/-- The members are those of a wide literal, and each is as long as the text
admits. -/
def WideWellFormed (quote : ℕ) : List CChar → Prop
  | [] => True
  | e :: es => e.ValidWide quote ∧ e.EndsBefore (at' (textOf es) 0) ∧ WideWellFormed quote es

/-- The target's `wchar_t`. -/
def wchar : IntType := Kind.Sint.intType

/-! ## Integers -/

inductive Base
  | decimal | octal | hexadecimal
  deriving DecidableEq

/-- The suffix of an integer: whether it has a `u`, how many `l`, which of them
comes first, and whether they are capitals. -/
structure Suffix where
  u : Bool
  l : Fin 3
  uFirst : Bool
  uCapital : Bool
  lCapital : Bool
  deriving DecidableEq

namespace Suffix

def uText (s : Suffix) : List ℕ :=
  if s.u then [if s.uCapital then byte 'U' else byte 'u'] else []

def lText (s : Suffix) : List ℕ :=
  List.replicate s.l (if s.lCapital then byte 'L' else byte 'l')

def text (s : Suffix) : List ℕ := if s.uFirst then s.uText ++ s.lText else s.lText ++ s.uText

end Suffix

/-- An integer literal. An octal one has its first zero before the digits. -/
structure Integer where
  base : Base
  capitalX : Bool
  digits : List Digit
  suffix : Suffix
  deriving DecidableEq

namespace Integer

variable (n : Integer)

def radix : ℕ :=
  match n.base with
  | .decimal => 10
  | .octal => 8
  | .hexadecimal => 16

def text : List ℕ :=
  match n.base with
  | .decimal => digitsText n.digits ++ n.suffix.text
  | .octal => byte '0' :: (digitsText n.digits ++ n.suffix.text)
  | .hexadecimal =>
    byte '0' :: (if n.capitalX then byte 'X' else byte 'x') ::
      (digitsText n.digits ++ n.suffix.text)

def value : ℕ := digitsValue n.radix n.digits

/-- What the grammar asks. -/
def Valid : Prop :=
  (∀ d ∈ n.digits, (d.val : ℕ) < n.radix) ∧
    match n.base with
    | .decimal => n.digits ≠ [] ∧ ∀ d, n.digits.head? = some d → (d.val : ℕ) ≠ 0
    | .octal => True
    | .hexadecimal => n.digits ≠ []

/-- **C's list of candidates** for the type. -/
def candidates : List BasicType :=
  match n.suffix.u, (n.suffix.l : ℕ), n.base with
  | false, 0, .decimal => [.Sint, .Slong, .Slonglong]
  | false, 0, _ => [.Sint, .Uint, .Slong, .Ulong, .Slonglong, .Ulonglong]
  | false, 1, .decimal => [.Slong, .Slonglong]
  | false, 1, _ => [.Slong, .Ulong, .Slonglong, .Ulonglong]
  | false, _, .decimal => [.Slonglong]
  | false, _, _ => [.Slonglong, .Ulonglong]
  | true, 0, _ => [.Uint, .Ulong, .Ulonglong]
  | true, 1, _ => [.Ulong, .Ulonglong]
  | true, _, _ => [.Ulonglong]

/-- The value is one of the type. -/
def Fits (v : ℤ) (b : BasicType) : Bool :=
  match b.intType with
  | some t => decide (t.InRange v)
  | none => false

/-- The first candidate that the value fits in. -/
def type : Option BasicType := n.candidates.find? (Fits n.value)

end Integer

end Cilk.Literals
