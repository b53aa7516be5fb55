import Cilk.Declarators.Model

/-!
# The grammar of C's declarations

How a list of tokens is read as the specifiers and the declarator of one
declaration, and which type the declarator gives to the name in it. The grammar
is that of C, with the tokens of `output.c` for the words that C and its
extensions spell differently. A declared name is a token of its own, so it is
told from the name of a type.

What is read, and what is left to read, is a relation with a rule for each
production. Where C's grammar leaves open how a text goes on, the next token
decides, and so nothing is read in two ways.
-/

namespace Cilk.Declarators

/-! ## Syntax -/

/-- A declarator, abstract where no name stands at the bottom. -/
inductive Declarator
  | name (n : Option String)
  | ptr (tq : TypeQual) (d : Declarator)
  | array (d : Declarator) (dim : Expr)
  | func (d : Declarator) (args : Args)

/-- The name that a declarator declares, and its type, when its specifiers say
`type`. -/
def Declarator.declares : Declarator → Node → Option String × Node
  | name n, type => (n, type)
  | ptr tq d, type => d.declares (.Ptr tq type)
  | array d dim, type => d.declares (.Adcl type dim)
  | func d args, type => d.declares (.Fdcl EMPTY_TQ args type)

/-- A type specifier. -/
inductive Base
  | basic (b : BasicType)
  | typedefName (name : String)
  | sue (kind : SueKind) (name : String) (fields : Option String)

def Base.node (tq : TypeQual) : Base → Node
  | basic b => .Prim tq b
  | typedefName name => .Tdef tq name
  | sue kind name fields => .Sue kind tq name fields

structure Declaration where
  storage : List StorageClass
  inline : Bool
  name : Option String
  type : Node

/-- The qualifiers that C allows after a `*`. -/
def pointerQualifiers : List Qualifier := [.T_CONST, .T_VOLATILE, .T_RESTRICT]

/-- The qualifiers of a type specifier, with `__complex__`. -/
def typeQualifiers : List Qualifier := [.T_CONST, .T_VOLATILE, .T_RESTRICT, .T_COMPLEX]

/-- The words that may stand among the specifiers of a declaration. -/
def Word.isSpecifier : Word → Bool
  | storage _ => true
  | qual q => q ∈ .T_INLINE :: typeQualifiers

def Word.isPointerQualifier : Word → Bool
  | storage _ => false
  | qual q => q ∈ pointerQualifiers

def Word.storage? : Word → Option StorageClass
  | storage sc => some sc
  | qual _ => none

/-- The type qualifiers among some words. -/
def qualifiersOf (ws : List Word) : TypeQual :=
  ⟨none, fun q => q ∈ typeQualifiers ∧ .qual q ∈ ws⟩

/-- The declaration with some specifiers and a declarator. -/
def Declaration.ofParts (ws : List Word) (base : Base) (d : Declarator) : Declaration where
  storage := ws.filterMap Word.storage?
  inline := .qual .T_INLINE ∈ ws
  name := (d.declares (base.node (qualifiersOf ws))).1
  type := (d.declares (base.node (qualifiersOf ws))).2

/-- A declaration as a parameter. -/
def Declaration.param (d : Declaration) : Param :=
  match d.name with
  | none => .type d.type
  | some name => .decl ⟨d.storage.head?, fun _ => false⟩ name d.type

/-! ## The next token -/

def startsWord : List Token → Bool
  | .word _ :: _ => true
  | _ => false

def startsFields : List Token → Bool
  | .fields _ :: _ => true
  | _ => false

/-- Whether what follows a parenthesis is a declarator, and no parameters. -/
def startsGroup : List Token → Bool
  | .star :: _ | .lparen :: _ | .lbrack :: _ | .name _ :: _ => true
  | _ => false

/-- Whether a declarator goes on. -/
def startsSuffix : List Token → Bool
  | .lparen :: _ | .lbrack :: _ => true
  | _ => false

def startsStar : List Token → Bool
  | .star :: _ => true
  | _ => false

/-- Whether a direct declarator starts with a name or with a declarator in
parentheses. -/
def startsCore : List Token → Bool
  | .name _ :: _ => true
  | .lparen :: rest => startsGroup rest
  | _ => false

def startsComma : List Token → Bool
  | .comma :: _ => true
  | _ => false

def startsEllipsis : List Token → Bool
  | .ellipsis :: _ => true
  | _ => false

/-! ## Productions -/

/-- What is read. `suffixes d d'` is the rest of a declarator that begins with
`d`. -/
inductive Phrase
  | words (ws : List Word)
  | base (b : Base)
  | declarator (d : Declarator)
  | direct (d : Declarator)
  | suffixes (d d' : Declarator)
  | args (a : Args)
  | params (ps : Params)
  | declaration (d : Declaration)

/-- **`Reads p ts rest`**: the tokens `ts` begin with `p`, and `rest` is left. -/
inductive Reads : Phrase → List Token → List Token → Prop
  | noWord {ts} (h : startsWord ts = false) : Reads (.words []) ts ts
  | word {w ws ts rest} (h : Reads (.words ws) ts rest) :
      Reads (.words (w :: ws)) (.word w :: ts) rest
  | basic {b ts} : Reads (.base (.basic b)) (.basic b :: ts) ts
  | typedefName {name ts} : Reads (.base (.typedefName name)) (.typedefName name :: ts) ts
  | sue {kind name ts} (h : startsFields ts = false) :
      Reads (.base (.sue kind name none)) (.sue kind :: .tag name :: ts) ts
  | sueFields {kind name text ts} :
      Reads (.base (.sue kind name (some text))) (.sue kind :: .tag name :: .fields text :: ts) ts
  | ptr {ws d ts ts' rest} (hws : Reads (.words ws) ts ts')
      (hqual : ws.all Word.isPointerQualifier = true) (hd : Reads (.declarator d) ts' rest) :
      Reads (.declarator (.ptr (qualifiersOf ws) d)) (.star :: ts) rest
  | noPtr {d ts rest} (hstar : startsStar ts = false) (hd : Reads (.direct d) ts rest) :
      Reads (.declarator d) ts rest
  | name {n d ts rest} (hd : Reads (.suffixes (.name (some n)) d) ts rest) :
      Reads (.direct d) (.name n :: ts) rest
  | group {d d' ts ts' rest} (hgroup : startsGroup ts = true)
      (hd : Reads (.declarator d) ts (.rparen :: ts')) (hd' : Reads (.suffixes d d') ts' rest) :
      Reads (.direct d') (.lparen :: ts) rest
  | abstract {d ts rest} (hcore : startsCore ts = false)
      (hd : Reads (.suffixes (.name none) d) ts rest) : Reads (.direct d) ts rest
  | noSuffix {d ts} (h : startsSuffix ts = false) : Reads (.suffixes d d) ts ts
  | array {d d' ts rest} (hd : Reads (.suffixes (.array d .null) d') ts rest) :
      Reads (.suffixes d d') (.lbrack :: .rbrack :: ts) rest
  | dimension {d d' text ts rest} (hd : Reads (.suffixes (.array d (.source text)) d') ts rest) :
      Reads (.suffixes d d') (.lbrack :: .expr text :: .rbrack :: ts) rest
  | func {d d' a ts ts' rest} (ha : Reads (.args a) ts (.rparen :: ts'))
      (hd : Reads (.suffixes (.func d a) d') ts' rest) :
      Reads (.suffixes d d') (.lparen :: ts) rest
  | noArgs {ts} : Reads (.args .null) (.rparen :: ts) (.rparen :: ts)
  | someArgs {ps t ts rest} (ht : t ≠ .rparen) (h : Reads (.params ps) (t :: ts) rest) :
      Reads (.args (.list ps)) (t :: ts) rest
  | last {d ts rest} (hd : Reads (.declaration d) ts rest) (hcomma : startsComma rest = false) :
      Reads (.params (.last d.param)) ts rest
  | ellipsis {d ts rest} (hd : Reads (.declaration d) ts (.comma :: .ellipsis :: rest)) :
      Reads (.params (.ellipsis d.param)) ts rest
  | cons {d ps ts ts' rest} (hd : Reads (.declaration d) ts (.comma :: ts'))
      (hellipsis : startsEllipsis ts' = false) (hps : Reads (.params ps) ts' rest) :
      Reads (.params (.cons d.param ps)) ts rest
  | declaration {ws ws' b d ts ts₁ ts₂ ts₃ rest} (hws : Reads (.words ws) ts ts₁)
      (hb : Reads (.base b) ts₁ ts₂) (hws' : Reads (.words ws') ts₂ ts₃)
      (hspec : (ws ++ ws').all Word.isSpecifier = true) (hd : Reads (.declarator d) ts₃ rest) :
      Reads (.declaration (.ofParts (ws ++ ws') b d)) ts rest

/-! ## Nothing is read in two ways -/

/-- Two phrases of one kind, which go on from the same declarator. -/
def Phrase.asks : Phrase → Phrase → Prop
  | words _, words _ | base _, base _ | declarator _, declarator _ | direct _, direct _
  | args _, args _ | params _, params _ | declaration _, declaration _ => True
  | suffixes d _, suffixes d' _ => d = d'
  | _, _ => False

/-- **A text is read in one way.** -/
theorem Reads.unique {p : Phrase} {ts rest : List Token} (h : Reads p ts rest) :
    ∀ {p' : Phrase} {rest' : List Token}, Reads p' ts rest' → p.asks p' → p = p' ∧ rest = rest' := by
  induction h with
  | noWord hstart =>
    intro p' rest' h' hask
    cases h' <;> first | exact hask.elim | skip
    · exact ⟨rfl, rfl⟩
    · cases hstart
  | word h ih =>
    intro p' rest' h' hask
    cases h' <;> first | exact hask.elim | skip
    · rename_i hstart
      cases hstart
    · rename_i h'
      obtain ⟨heq, rfl⟩ := ih h' trivial
      cases heq
      exact ⟨rfl, rfl⟩
  | basic =>
    intro p' rest' h' hask
    cases h' <;> first | exact hask.elim | skip
    exact ⟨rfl, rfl⟩
  | typedefName =>
    intro p' rest' h' hask
    cases h' <;> first | exact hask.elim | skip
    exact ⟨rfl, rfl⟩
  | sue hstart =>
    intro p' rest' h' hask
    cases h' <;> first | exact hask.elim | skip
    · exact ⟨rfl, rfl⟩
    · cases hstart
  | sueFields =>
    intro p' rest' h' hask
    cases h' <;> first | exact hask.elim | skip
    · rename_i hstart
      cases hstart
    · exact ⟨rfl, rfl⟩
  | ptr hws hqual hd ihws ihd =>
    intro p' rest' h' hask
    cases h' <;> first | exact hask.elim | skip
    · rename_i hws' hd'
      obtain ⟨heq, rfl⟩ := ihws hws' trivial
      cases heq
      obtain ⟨heq, rfl⟩ := ihd hd' trivial
      cases heq
      exact ⟨rfl, rfl⟩
    · rename_i hstar _
      cases hstar
  | noPtr hstar hd ih =>
    intro p' rest' h' hask
    cases h' <;> first | exact hask.elim | skip
    · cases hstar
    · rename_i hd'
      obtain ⟨heq, rfl⟩ := ih hd' trivial
      cases heq
      exact ⟨rfl, rfl⟩
  | name hd ih =>
    intro p' rest' h' hask
    cases h' <;> first | exact hask.elim | skip
    · rename_i hd'
      obtain ⟨heq, rfl⟩ := ih hd' rfl
      cases heq
      exact ⟨rfl, rfl⟩
    · rename_i hcore _
      cases hcore
  | group hgroup hd hd' ih ih' =>
    intro p' rest' h' hask
    cases h' <;> first | exact hask.elim | skip
    · rename_i he he'
      obtain ⟨heq, hrest⟩ := ih he trivial
      cases heq
      cases hrest
      obtain ⟨heq, rfl⟩ := ih' he' rfl
      cases heq
      exact ⟨rfl, rfl⟩
    · rename_i hcore _
      exact absurd (hcore.symm.trans hgroup) (by decide)
  | abstract hcore hd ih =>
    intro p' rest' h' hask
    cases h' <;> first | exact hask.elim | skip
    · cases hcore
    · rename_i hgroup _ _
      exact absurd (hcore.symm.trans hgroup) (by decide)
    · rename_i hd'
      obtain ⟨heq, rfl⟩ := ih hd' rfl
      cases heq
      exact ⟨rfl, rfl⟩
  | noSuffix hstart =>
    intro p' rest' h' hask
    cases h' <;> first | exact hask.elim | skip
    · cases hask
      exact ⟨rfl, rfl⟩
    all_goals cases hstart
  | array hd ih =>
    intro p' rest' h' hask
    cases h' <;> first | exact hask.elim | skip
    · rename_i hstart
      cases hstart
    · rename_i hd'
      cases hask
      obtain ⟨heq, rfl⟩ := ih hd' rfl
      cases heq
      exact ⟨rfl, rfl⟩
  | dimension hd ih =>
    intro p' rest' h' hask
    cases h' <;> first | exact hask.elim | skip
    · rename_i hstart
      cases hstart
    · rename_i hd'
      cases hask
      obtain ⟨heq, rfl⟩ := ih hd' rfl
      cases heq
      exact ⟨rfl, rfl⟩
  | func ha hd iha ihd =>
    intro p' rest' h' hask
    cases h' <;> first | exact hask.elim | skip
    · rename_i hstart
      cases hstart
    · rename_i ha' hd'
      cases hask
      obtain ⟨heq, hrest⟩ := iha ha' trivial
      cases heq
      cases hrest
      obtain ⟨heq, rfl⟩ := ihd hd' rfl
      cases heq
      exact ⟨rfl, rfl⟩
  | noArgs =>
    intro p' rest' h' hask
    cases h' <;> first | exact hask.elim | skip
    · exact ⟨rfl, rfl⟩
    · rename_i ht _
      exact absurd rfl ht
  | someArgs ht h ih =>
    intro p' rest' h' hask
    cases h' <;> first | exact hask.elim | skip
    · exact absurd rfl ht
    · rename_i h'
      obtain ⟨heq, rfl⟩ := ih h' trivial
      cases heq
      exact ⟨rfl, rfl⟩
  | last hd hcomma ih =>
    intro p' rest' h' hask
    cases h' <;> first | exact hask.elim | skip
    · rename_i hd'
      obtain ⟨heq, rfl⟩ := ih hd' trivial
      cases heq
      exact ⟨rfl, rfl⟩
    · rename_i hd'
      obtain ⟨-, rfl⟩ := ih hd' trivial
      cases hcomma
    · rename_i hd' _
      obtain ⟨-, rfl⟩ := ih hd' trivial
      cases hcomma
  | ellipsis hd ih =>
    intro p' rest' h' hask
    cases h' <;> first | exact hask.elim | skip
    · rename_i hd'
      obtain ⟨-, rfl⟩ := ih hd' trivial
      cases ‹startsComma _ = false›
    · rename_i hd'
      obtain ⟨heq, hrest⟩ := ih hd' trivial
      cases heq
      cases hrest
      exact ⟨rfl, rfl⟩
    · rename_i hd' _
      obtain ⟨-, hrest⟩ := ih hd' trivial
      cases hrest
      cases ‹startsEllipsis _ = false›
  | cons hd hellipsis hps ihd ihps =>
    intro p' rest' h' hask
    cases h' <;> first | exact hask.elim | skip
    · rename_i hd'
      obtain ⟨-, rfl⟩ := ihd hd' trivial
      cases ‹startsComma _ = false›
    · rename_i hd'
      obtain ⟨-, hrest⟩ := ihd hd' trivial
      cases hrest
      cases hellipsis
    · rename_i hd' hps'
      obtain ⟨heq, hrest⟩ := ihd hd' trivial
      cases heq
      cases hrest
      obtain ⟨heq, rfl⟩ := ihps hps' trivial
      cases heq
      exact ⟨rfl, rfl⟩
  | declaration hws hb hws' hspec hd ihws ihb ihws' ihd =>
    intro p' rest' h' hask
    cases h' <;> first | exact hask.elim | skip
    rename_i eb ews' _ ews ed
    obtain ⟨heq, rfl⟩ := ihws ews trivial
    cases heq
    obtain ⟨heq, rfl⟩ := ihb eb trivial
    cases heq
    obtain ⟨heq, rfl⟩ := ihws' ews' trivial
    cases heq
    obtain ⟨heq, rfl⟩ := ihd ed trivial
    cases heq
    exact ⟨rfl, rfl⟩

end Cilk.Declarators
