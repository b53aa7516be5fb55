import Cilk.ConstFold.Model

/-!
# Literals

What the scanner of `c4.l` makes of the text of a literal: `int_constant` of an
integer's, `char_constant` of a character's and `convert_escape_sequences`, with
`UniqueString` and `MakeString`, of a string's.

A text is the list of its bytes. Reading one past its end gives the byte that
ends every C string, and an `int` that leaves its range ends the run, as a
failed assertion does.
-/

namespace Cilk.Literals

open ConstFold

/-- The byte that a character is. -/
abbrev byte (c : Char) : ℕ := c.toNat

def backslash : ℕ := 92

/-- The quote around a character. -/
def apostrophe : ℕ := 39

/-- The quote around a string. -/
def quotation : ℕ := 34

/-- `s[i]`, where `s` ends in a zero byte that the list leaves out. -/
def at' (s : List ℕ) (i : ℕ) : ℕ := s.getD i 0

/-- The target's `char`, as it is converted to `int`. -/
def schar : IntType := ⟨7, true⟩

/-- `TARGET_MAX_UCHAR` -/
def TARGET_MAX_UCHAR : ℕ := 256

/-! ## Escape sequences -/

/-- `hex_digit`; `none` is its `-1`. -/
def hex_digit (c : ℕ) : Option ℕ :=
  if byte '0' ≤ c ∧ c ≤ byte '9' then some (c - byte '0')
  else if byte 'a' ≤ c ∧ c ≤ byte 'f' then some (c - byte 'a' + 10)
  else if byte 'A' ≤ c ∧ c ≤ byte 'F' then some (c - byte 'A' + 10)
  else none

def octal_digit (c : ℕ) : Option ℕ :=
  if byte '0' ≤ c ∧ c ≤ byte '7' then some (c - byte '0') else none

/-- What `parse_char_constant` returns, and the errors it reports. -/
structure Parsed where
  val : ℤ
  actual_read : ℕ
  errors : List String
  deriving DecidableEq

/-- The loop over the digits of a hexadecimal escape sequence: `s` is what is
left of the text, and `i` how much of it was read. -/
def hexLoop : List ℕ → ℕ → ℕ → Option (ℕ × ℕ)
  | [], val, i => some (val, i)
  | c :: s, val, i =>
    match hex_digit c with
    | none => some (val, i)
    | some tmp =>
      if ((16 * val + tmp : ℕ) : ℤ) ≤ Kind.Sint.intType.max then hexLoop s (16 * val + tmp) (i + 1)
      else none

/-- The loop over the digits of an octal one, which ends after the third. -/
def octalLoop : List ℕ → ℕ → ℕ → ℕ × ℕ
  | [], val, i => (val, i)
  | c :: s, val, i =>
    match octal_digit c with
    | none => (val, i)
    | some tmp => if i < 4 then octalLoop s (8 * val + tmp) (i + 1) else (val, i)

/-- The escape sequences of one letter. -/
def simple_escape (c : ℕ) : Option ℕ :=
  if c = byte 'n' then some 10
  else if c = byte 't' then some 9
  else if c = byte 'v' then some 11
  else if c = byte 'b' then some 8
  else if c = byte 'r' then some 13
  else if c = byte 'f' then some 12
  else if c = byte 'a' then some 7
  else if c = backslash then some (backslash)
  else if c = byte '?' then some (byte '?')
  else if c = apostrophe then some (apostrophe)
  else if c = quotation then some (quotation)
  else none

def parse_char_constant (s : List ℕ) : Option Parsed :=
  if at' s 0 ≠ backslash then none
  else match simple_escape (at' s 1) with
  | some v => some ⟨v, 2, []⟩
  | none =>
    if at' s 1 = byte 'x' then do
      let (val, i) ← hexLoop (s.drop 2) 0 2
      if i = 2 then pure ⟨-1, i, ["expecting hex digits after \\x"]⟩
      else if TARGET_MAX_UCHAR < val then
        pure ⟨-1, i, ["explicit hex character (\\x) out of range"]⟩
      else pure ⟨val, i, []⟩
    else match octal_digit (at' s 1) with
    | some _ =>
      let (val, i) := octalLoop (s.drop 1) 0 1
      if TARGET_MAX_UCHAR < val then
        some ⟨-1, 2, ["explicit octal character out of range"]⟩
      else some ⟨val, i, []⟩
    | none => some ⟨-1, 2, ["unknown special character"]⟩

/-- What becomes of a literal: its node and what was reported. -/
structure Result (α : Type) where
  node : α
  errors : List String
  warnings : List String
  deriving DecidableEq

def extraCharacters : String := "ignoring extra characters at end of char constant"

/-- `char_constant`: the value of the `Const` node, whose type is `int`. -/
def char_constant (s : List ℕ) : Option (Result ℤ) :=
  if at' s 0 ≠ apostrophe then none
  else if at' s 1 = backslash then do
    let p ← parse_char_constant (s.drop 1)
    let value := if p.val < 0 then (byte 'X' : ℤ) else p.val
    pure ⟨value, p.errors,
      if at' s (1 + p.actual_read) ≠ apostrophe then [extraCharacters] else []⟩
  else some ⟨schar.convert (at' s 1), [],
    if at' s 2 ≠ apostrophe then [extraCharacters] else []⟩

/-- `wide_char_const`, which leaves a wide character to `char_constant`. -/
def wide_char_const (s : List ℕ) : Option (Result ℤ) :=
  if at' s 0 ≠ byte 'L' ∨ at' s 1 ≠ apostrophe then none else char_constant (s.drop 1)

/-- The loop of `convert_escape_sequences` over the buffer it reads and writes.
The first number bounds the passes; `none` is where they do not suffice. -/
def convertLoop : ℕ → List ℕ → ℕ → ℕ → List String → Option (Result (List ℕ))
  | 0, _, _, _, _ => none
  | fuel + 1, string, read_this, write_this, errors =>
    if at' string read_this = 0 then some ⟨string.set write_this 0, errors, []⟩
    else if at' string read_this = backslash then do
      let p ← parse_char_constant (string.drop read_this)
      let written := if p.val < 0 then byte 'X' else (p.val % 256).toNat
      convertLoop fuel (string.set write_this written) (read_this + p.actual_read)
        (write_this + 1) (errors ++ p.errors)
    else
      convertLoop fuel (string.set write_this (at' string read_this)) (read_this + 1)
        (write_this + 1) errors

/-- The buffer after it, whose string ends at the first zero byte. -/
def convert_escape_sequences (string : List ℕ) : Option (Result (List ℕ)) :=
  convertLoop (string.length + 1) string 0 0 []

/-- `UniqueString`, which copies a string up to the byte that ends it. -/
def UniqueString (string : List ℕ) : List ℕ := string.takeWhile (· ≠ 0)

/-- A `Const` node for a string: its bytes, and the dimension of its type. -/
structure StringNode where
  s : List ℕ
  dim : ℕ
  deriving DecidableEq

def MakeString (value : List ℕ) : StringNode := ⟨value, value.length + 1⟩

/-- The action of the scanner on a string literal, and on a wide one: both skip
one byte of the text, which of a wide string is the `L`. The closing quote is
overwritten with the byte that ends a string. -/
def stringLiteral (yytext : List ℕ) : Option (Result StringNode) := do
  let r ← convert_escape_sequences ((yytext.set (yytext.length - 1) 0).drop 1)
  pure ⟨MakeString (UniqueString r.node), r.errors, r.warnings⟩

/-! ## Integers -/

/-- A `Const` node, or one below an `ImplicitCast`. -/
structure IntNode where
  type : BasicType
  kind : Kind
  val : ℤ
  deriving DecidableEq

/-- `isxdigit` -/
def isxdigit (c : ℕ) : Bool := (hex_digit c).isSome

/-- The loop from the end of the text to its last digit: `p` holds the bytes
from the end on. -/
def suffixLoop : List ℕ → Bool → ℕ → Bool × ℕ
  | [], is_unsigned, longness => (is_unsigned, longness)
  | c :: p, is_unsigned, longness =>
    if isxdigit c then (is_unsigned, longness)
    else if c = byte 'U' ∨ c = byte 'u' then suffixLoop p true longness
    else if c = byte 'L' ∨ c = byte 'l' then suffixLoop p is_unsigned (longness + 1)
    else suffixLoop p is_unsigned longness

/-- The value of a digit in a base, for `strtoul`. -/
def digitIn (base c : ℕ) : Option ℕ := (hex_digit c).filter (· < base)

/-- The number that the digits at the front of a text make. -/
def digitsLoop (base : ℕ) : List ℕ → ℕ → ℕ
  | [], value => value
  | c :: s, value =>
    match digitIn base c with
    | none => value
    | some d => digitsLoop base s (base * value + d)

/-- `strtoul(s, NULL, 0)`, of a text that starts with a digit. -/
def strtoul (s : List ℕ) : ℤ :=
  let value :=
    if at' s 0 = byte '0' ∧ (at' s 1 = byte 'x' ∨ at' s 1 = byte 'X') then
      digitsLoop 16 (s.drop 2) 0
    else if at' s 0 = byte '0' then digitsLoop 8 s 0
    else digitsLoop 10 s 0
  Min.min (value : ℤ) Kind.Ulong.intType.max

/-- `int_constant`. The text of the error in the branch for `long` is that of a
test which a value read by `strtoul` cannot pass. -/
def int_constant (ANSIOnly : Bool) (s : List ℕ) (decimal : Bool) : Option (Result IntNode) :=
  let (is_unsigned, longness) := suffixLoop s.reverse (!decimal) 0
  let value := strtoul s
  if longness = 0 ∧ is_unsigned = false ∧ value ≤ Kind.Sint.intType.max then
    some ⟨⟨.Sint, .Sint, Kind.Sint.intType.convert value⟩, [], []⟩
  else if longness = 0 ∧ value ≤ Kind.Uint.intType.max then
    some ⟨⟨.Uint, .Uint, Kind.Uint.intType.convert value⟩, [], []⟩
  else if longness = 1 ∧ is_unsigned = false ∧ value ≤ Kind.Slong.intType.max then
    some ⟨⟨.Slong, .Slong, Kind.Slong.intType.convert value⟩, [], []⟩
  else if longness = 1 then
    some ⟨⟨.Ulong, .Ulong, Kind.Ulong.intType.convert value⟩,
      if Kind.Ulong.intType.max < value then ["Constant is out of range"] else [], []⟩
  else if longness ≠ 2 then none
  else
    some ⟨⟨if is_unsigned then .Ulonglong else .Slonglong, .Ulong, value⟩,
      if ANSIOnly then ["long long constants not allowed with -ansi switch"] else [], []⟩

/-- Which of its three patterns the scanner finds in the text of an integer. A
zero alone is in two of them, and goes with the first. -/
inductive IntegerPattern
  | decimal_constant | octal_constant | hex_constant
  deriving DecidableEq

def IntegerPattern.of (s : List ℕ) : IntegerPattern :=
  if at' s 0 ≠ byte '0' then .decimal_constant
  else if at' s 1 = byte 'x' ∨ at' s 1 = byte 'X' then .hex_constant
  else if (octal_digit (at' s 1)).isSome then .octal_constant
  else .decimal_constant

/-- The action of the scanner on an integer. -/
def integerLiteral (ANSIOnly : Bool) (s : List ℕ) : Option (Result IntNode) :=
  int_constant ANSIOnly s (IntegerPattern.of s = .decimal_constant)

end Cilk.Literals
