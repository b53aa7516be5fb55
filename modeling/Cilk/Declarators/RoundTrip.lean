import Cilk.Declarators.Text

/-!
# Declarators are read as they are printed

The left half of a type is the words and the base, and then stars and opening
parentheses. Around a text in the middle that is read as a declarator, the
stars and the right half are read as the declarator of the type, if the text in
the middle takes suffixes where the type is one of an array or a function. That
is what the parentheses are for, and there are no others: `count_lparen_left`.
-/

namespace Cilk.Declarators

/-! ## The parts of a text -/

/-- The words before the base of a type. -/
def Node.words : Node → List Word
  | Prim tq _ | Tdef tq _ | Sue _ tq _ _ => (tq.remove .T_SUE_ELABORATED).words
  | Ptr _ type | Adcl type _ => type.words
  | Fdcl tq _ returns => tq.asWritten.words ++ returns.words

/-- The base, as a specifier. -/
def Node.base : Node → Base
  | Prim _ basic => .basic basic
  | Tdef _ name => .typedefName name
  | Sue kind _ name fields => .sue kind name fields
  | Ptr _ type | Adcl type _ => type.base
  | Fdcl _ _ returns => returns.base

/-- The qualifiers of the base. -/
def Node.baseTq : Node → TypeQual
  | Prim tq _ | Tdef tq _ | Sue _ tq _ _ => tq
  | Ptr _ type | Adcl type _ => type.baseTq
  | Fdcl _ _ returns => returns.baseTq

def Base.tokens : Base → List Token
  | basic b => [.basic b]
  | typedefName name => [.typedefName name]
  | sue kind name fields => [.sue kind, .tag name] ++ fields.toList.map .fields

/-- What stands between the base and the name. -/
def Node.stars : Node → List Token
  | Ptr tq type =>
    type.stars ++ (if type.isArrayOrFunc then [.lparen] else []) ++
      .star :: tq.asWritten.words.map .word
  | Adcl type _ => type.stars
  | Fdcl _ _ returns => returns.stars
  | _ => []

/-- What stands behind the name. -/
def Node.suffix (t : Node) : List Token := tokens (OutputPartialType .Right t EMPTY_TQ)

/-- The declarator of a type, around another. -/
def Node.wrap : Node → Declarator → Declarator
  | Ptr tq type, d => type.wrap (.ptr tq.asWritten d)
  | Adcl type dim, d => type.wrap (.array d dim.asWritten)
  | Fdcl _ args returns, d => returns.wrap (.func d args.asWritten)
  | _, d => d

theorem remove_of_within {tq : TypeQual} (h : tq.Within typeQualifiers) :
    tq.remove .T_SUE_ELABORATED = tq := by
  refine TypeQual.ext rfl (funext fun q => ?_)
  show (tq.has q && decide (q ≠ .T_SUE_ELABORATED)) = tq.has q
  cases hq : tq.has q with
  | false => rfl
  | true =>
    have hmem := h.2 q hq
    revert hmem
    cases q <;> decide

theorem tokens_TQ (tq : TypeQual) : tokens (OutputTQ tq) = tq.words.map .word := by
  unfold OutputTQ
  induction tq.words with
  | nil => rfl
  | cons w ws ih =>
    rw [List.flatMap_cons, tokens_append, ih]
    rfl

theorem tokens_toList (f : String → Token) (o : Option String) :
    tokens (o.toList.map fun s => .token (f s)) = o.toList.map f := by
  cases o <;> rfl

theorem tokens_ite (t : Token) (c : Bool) :
    tokens (if c then Out t else []) = if c then [t] else [] := by
  cases c <;> rfl

theorem words_empty : EMPTY_TQ.words = [] := rfl

/-- **The left half is the words, the base and the stars.** -/
theorem tokens_left : ∀ t : Node, t.WellQualified →
    tokens (OutputPartialType .Left t EMPTY_TQ) = t.words.map .word ++ t.base.tokens ++ t.stars
  | .Prim tq basic, _ => by
    rw [OutputPartialType, tokens_append, tokens_append, tokens_TQ, tokens_TQ, words_empty]
    exact (List.append_nil _).symm
  | .Tdef tq name, h => by
    rw [OutputPartialType, tokens_append, tokens_append, tokens_TQ, tokens_TQ, words_empty]
    show _ = (tq.remove .T_SUE_ELABORATED).words.map Token.word ++ _ ++ []
    rw [remove_of_within h, List.append_nil]
    rfl
  | .Sue kind tq name fields, _ => by
    rw [OutputPartialType, tokens_append, tokens_append, tokens_TQ, tokens_TQ, words_empty]
    unfold OutputSUE
    rw [tokens_append, tokens_toList]
    exact (List.append_nil _).symm
  | .Ptr tq type, h => by
    rw [OutputPartialType, tokens_append, tokens_append, tokens_append, tokens_ite, tokens_TQ,
      tokens_left type h.2]
    show _ = type.words.map Token.word ++ type.base.tokens ++ (type.stars ++ _ ++ _)
    simp only [List.append_assoc]
    rfl
  | .Adcl type _, h => by
    rw [OutputPartialType]
    exact tokens_left type h
  | .Fdcl tq args returns, h => by
    rw [OutputPartialType, tokens_append, tokens_TQ, tokens_left returns h.2.2]
    show _ = (tq.asWritten.words ++ returns.words).map Token.word ++ _ ++ _
    rw [List.map_append]
    simp only [List.append_assoc]
    rfl

/-! ### Parentheses -/

/-- How many pointers to an array or to a function there are on the way to the
base. -/
def Node.groups : Node → ℕ
  | Ptr _ type => type.groups + if type.isArrayOrFunc then 1 else 0
  | Adcl type _ => type.groups
  | Fdcl _ _ returns => returns.groups
  | _ => 0

theorem count_lparen_words (ws : List Word) : (ws.map Token.word).count .lparen = 0 := by
  refine List.count_eq_zero.mpr fun hmem => ?_
  obtain ⟨w, -, hw⟩ := List.mem_map.mp hmem
  exact Token.noConfusion hw

theorem count_lparen_base (base : Base) : base.tokens.count .lparen = 0 := by
  refine List.count_eq_zero.mpr fun hmem => ?_
  cases base with
  | basic | typedefName => exact Token.noConfusion (List.mem_singleton.mp hmem)
  | sue kind name fields => cases fields <;> simp [Base.tokens] at hmem

theorem count_lparen_stars : ∀ t : Node, t.stars.count .lparen = t.groups
  | .Ptr tq type => by
    have hstar : (Token.star :: tq.asWritten.words.map .word).count .lparen = 0 := by
      rw [List.count_cons_of_ne (by decide), count_lparen_words]
    have hgroup : (if type.isArrayOrFunc then [Token.lparen] else []).count .lparen =
        if type.isArrayOrFunc then 1 else 0 := by
      cases type.isArrayOrFunc <;> rfl
    show (type.stars ++ _ ++ (Token.star :: tq.asWritten.words.map .word)).count .lparen = _
    rw [List.count_append, List.count_append, hstar, hgroup, count_lparen_stars type]
    rfl
  | .Adcl type _ => count_lparen_stars type
  | .Fdcl _ _ returns => count_lparen_stars returns
  | .Prim _ _ | .Tdef _ _ | .Sue _ _ _ _ => rfl

/-- **Parentheses are opened for pointers to arrays and to functions only**, and
for each of them once. -/
theorem count_lparen_left (t : Node) (h : t.WellQualified) :
    (tokens (OutputPartialType .Left t EMPTY_TQ)).count .lparen = t.groups := by
  rw [tokens_left t h, List.count_append, List.count_append, count_lparen_words,
    count_lparen_base, count_lparen_stars, Nat.zero_add]

/-! ### The right half -/

theorem suffix_ptr (tq : TypeQual) (type : Node) :
    (Node.Ptr tq type).suffix = (if type.isArrayOrFunc then [.rparen] else []) ++ type.suffix := by
  unfold Node.suffix
  rw [OutputPartialType, tokens_append, tokens_ite]

/-- The tokens of the dimension of an array. -/
def Expr.tokens (dim : Expr) : List Token := dim.written.toList.map .expr

theorem suffix_adcl (type : Node) (dim : Expr) :
    (Node.Adcl type dim).suffix = .lbrack :: (dim.tokens ++ [.rbrack]) ++ type.suffix := by
  unfold Node.suffix
  rw [OutputPartialType, tokens_append, tokens_append, tokens_append, tokens_toList]
  rfl

theorem suffix_fdcl (tq : TypeQual) (args : Args) (returns : Node) :
    (Node.Fdcl tq args returns).suffix
      = .lparen :: (tokens (OutputArgs args) ++ [.rparen]) ++ returns.suffix := by
  unfold Node.suffix
  rw [OutputPartialType, tokens_append, tokens_append, tokens_append]
  rfl

/-! ## What is declared -/

theorem mem_words {tq : TypeQual} {q : Qualifier} : .qual q ∈ tq.words ↔ tq.has q = true := by
  unfold TypeQual.words
  rw [List.mem_append, List.mem_append, List.mem_map, List.mem_map, List.mem_map]
  constructor
  · rintro ((⟨q', hq', hqq⟩ | ⟨sc, -, hsc⟩) | ⟨q', hq', hqq⟩)
    · cases hqq
      exact (List.mem_filter.mp hq').2
    · cases hsc
    · cases hqq
      exact (List.mem_filter.mp hq').2
  · intro hq
    by_cases hext : q = .T_EXTENSION
    · subst hext
      exact .inl (.inl ⟨_, List.mem_filter.mpr ⟨List.mem_singleton_self _, hq⟩, rfl⟩)
    · refine .inr ⟨q, List.mem_filter.mpr ⟨?_, hq⟩, rfl⟩
      revert hext
      cases q <;> decide

/-- The words of qualifiers alone are qualifiers. -/
theorem words_all {tq : TypeQual} {qs : List Qualifier} (h : tq.Within qs) {p : Word → Bool}
    (hp : ∀ q ∈ qs, p (.qual q) = true) : tq.words.all p = true := by
  refine List.all_eq_true.mpr fun w hw => ?_
  cases w with
  | qual q => exact hp q (h.2 q (mem_words.mp hw))
  | storage sc =>
    unfold TypeQual.words at hw
    rw [h.1] at hw
    simp at hw

/-- **The qualifiers among the words are those that were printed.** -/
theorem qualifiersOf_words {tq : TypeQual} (h : tq.Within typeQualifiers) :
    qualifiersOf tq.words = tq := by
  refine TypeQual.ext h.1.symm (funext fun q => ?_)
  show decide (q ∈ typeQualifiers ∧ .qual q ∈ tq.words) = tq.has q
  cases hq : tq.has q with
  | true => exact decide_eq_true ⟨h.2 q hq, mem_words.mpr hq⟩
  | false =>
    exact decide_eq_false fun hmem => Bool.noConfusion (hq.symm.trans (mem_words.mp hmem.2))

theorem qualifiersOf_append {ws : List Word} (hws : ∀ q ∈ typeQualifiers, .qual q ∉ ws)
    (ws' : List Word) : qualifiersOf (ws ++ ws') = qualifiersOf ws' := by
  refine TypeQual.ext rfl (funext fun q => decide_eq_decide.mpr ?_)
  rw [List.mem_append]
  exact ⟨fun h => ⟨h.1, h.2.resolve_left (hws q h.1)⟩, fun h => ⟨h.1, .inr h.2⟩⟩

/-- What a function writes before its result is `inline`. -/
theorem within_inline {tq : TypeQual} (h : tq.Within [.T_INLINE, .T_PROCEDURE, .T_INLET]) :
    tq.asWritten.Within [.T_INLINE] := by
  refine ⟨h.1, fun q hq => ?_⟩
  have hhas : ((tq.has q && decide (q ≠ .T_PROCEDURE)) && decide (q ≠ .T_INLET)) = true := hq
  rw [Bool.and_eq_true, Bool.and_eq_true, decide_eq_true_iff, decide_eq_true_iff] at hhas
  obtain ⟨⟨hhas, hprocedure⟩, hinlet⟩ := hhas
  have hmem := h.2 q hhas
  revert hmem hprocedure hinlet
  cases q <;> decide

theorem qualifiersOf_node : ∀ t : Node, t.WellQualified → qualifiersOf t.words = t.baseTq
  | .Prim tq _, h | .Tdef tq _, h | .Sue _ tq _ _, h => by
    show qualifiersOf (tq.remove .T_SUE_ELABORATED).words = tq
    rw [remove_of_within h, qualifiersOf_words h]
  | .Ptr _ type, h => qualifiersOf_node type h.2
  | .Adcl type _, h => qualifiersOf_node type h
  | .Fdcl tq _ returns, h => by
    refine (qualifiersOf_append (fun q hq hmem => ?_) _).trans (qualifiersOf_node returns h.2.2)
    have hinline := (within_inline h.1).2 q (mem_words.mp hmem)
    rw [List.mem_singleton.mp hinline] at hq
    revert hq
    decide

/-- **The words of a type may stand in a declaration.** -/
theorem words_specify : ∀ t : Node, t.WellQualified → t.words.all Word.isSpecifier = true
  | .Prim tq _, h | .Tdef tq _, h | .Sue _ tq _ _, h => by
    show (tq.remove .T_SUE_ELABORATED).words.all Word.isSpecifier = true
    rw [remove_of_within h]
    exact words_all h (by decide)
  | .Ptr _ type, h => words_specify type h.2
  | .Adcl type _, h => words_specify type h
  | .Fdcl tq _ returns, h => by
    show (tq.asWritten.words ++ returns.words).all Word.isSpecifier = true
    rw [List.all_append, words_all (within_inline h.1) (by decide),
      words_specify returns h.2.2]
    rfl

theorem storage_of_within {tq : TypeQual} {qs : List Qualifier} (h : tq.Within qs) :
    tq.words.filterMap Word.storage? = [] := by
  refine List.filterMap_eq_nil_iff.mpr fun w hw => Option.isNone_iff_eq_none.mp ?_
  exact List.all_eq_true.mp (words_all (p := fun w => w.storage?.isNone) h fun _ _ => rfl) w hw

/-- No storage class is written with a type. -/
theorem storage_words : ∀ t : Node, t.WellQualified → t.words.filterMap Word.storage? = []
  | .Prim tq _, h | .Tdef tq _, h | .Sue _ tq _ _, h => by
    show (tq.remove .T_SUE_ELABORATED).words.filterMap Word.storage? = []
    rw [remove_of_within h]
    exact storage_of_within h
  | .Ptr _ type, h => storage_words type h.2
  | .Adcl type _, h => storage_words type h
  | .Fdcl tq _ returns, h => by
    show (tq.asWritten.words ++ returns.words).filterMap Word.storage? = []
    rw [List.filterMap_append, storage_of_within (within_inline h.1), storage_words returns h.2.2]
    rfl

/-- **The declarator of a type gives the name what is written of the type.** -/
theorem declares_wrap : ∀ (t : Node) (d : Declarator),
    (t.wrap d).declares (t.base.node t.baseTq) = d.declares t.asWritten
  | .Prim _ _, _ | .Tdef _ _, _ | .Sue _ _ _ _, _ => rfl
  | .Ptr tq type, d => declares_wrap type (.ptr tq.asWritten d)
  | .Adcl type dim, d => declares_wrap type (.array d dim.asWritten)
  | .Fdcl _ args returns, d => declares_wrap returns (.func d args.asWritten)

/-! ## Reading -/

/-- What may follow a declaration. -/
def Ends : List Token → Prop
  | [] | .rparen :: _ | .comma :: _ => True
  | _ => False

/-- The tokens that may stand behind the specifiers. -/
def Token.declares : Token → Bool
  | star | lparen | rparen | lbrack | comma | name _ => true
  | _ => false

/-- A text that begins, if at all, with a token that may stand behind the
specifiers. -/
def Behind (ts : List Token) : Prop := ∀ t ∈ ts.head?, t.declares = true

theorem Behind.append {a b : List Token} (ha : Behind a) (hb : Behind b) : Behind (a ++ b) := by
  cases a with
  | nil => exact hb
  | cons t rest => exact ha

theorem behind_of_ends {ts : List Token} (h : Ends ts) : Behind ts := by
  intro t ht
  cases ts with
  | nil => cases ht
  | cons t' rest =>
    cases ht
    cases t <;> first | rfl | exact h.elim

theorem behind_cons {t : Token} (h : t.declares = true) (ts : List Token) : Behind (t :: ts) := by
  intro t' ht
  cases ht
  exact h

theorem startsWord_of_behind {ts : List Token} (h : Behind ts) : startsWord ts = false := by
  cases ts with
  | nil => rfl
  | cons t rest =>
    have ht := h t rfl
    cases t <;> first | rfl | cases ht

theorem startsFields_of_behind {ts : List Token} (h : Behind ts) : startsFields ts = false := by
  cases ts with
  | nil => rfl
  | cons t rest =>
    have ht := h t rfl
    cases t <;> first | rfl | cases ht

theorem startsSuffix_of_ends {ts : List Token} (h : Ends ts) : startsSuffix ts = false := by
  cases ts with
  | nil => rfl
  | cons t rest => cases t <;> first | rfl | exact h.elim

theorem startsCore_of_ends {ts : List Token} (h : Ends ts) : startsCore ts = false := by
  cases ts with
  | nil => rfl
  | cons t rest => cases t <;> first | rfl | exact h.elim

theorem startsStar_of_ends {ts : List Token} (h : Ends ts) : startsStar ts = false := by
  cases ts with
  | nil => rfl
  | cons t rest => cases t <;> first | rfl | exact h.elim

/-- Words are read up to the next token that is none. -/
theorem reads_words (ws : List Word) {ts : List Token} (h : startsWord ts = false) :
    Reads (.words ws) (ws.map .word ++ ts) ts := by
  induction ws with
  | nil => exact .noWord h
  | cons w ws ih => exact .word ih

theorem reads_base (b : Base) {ts : List Token} (h : startsFields ts = false) :
    Reads (.base b) (b.tokens ++ ts) ts := by
  cases b with
  | basic b => exact .basic
  | typedefName name => exact .typedefName
  | sue kind name fields =>
    cases fields with
    | none => exact .sue h
    | some text => exact .sueFields

/-- A text that is read as a declarator, when nothing goes on behind it. -/
structure Inner (X : List Token) (D : Declarator) : Prop where
  reads : ∀ {rest}, Ends rest → Reads (.declarator D) (X ++ rest) rest
  behind : Behind X

/-- A text that is read as a declarator with whatever suffixes stand behind
it. -/
structure Direct (X : List Token) (D : Declarator) : Prop where
  reads : ∀ {d ts rest}, startsCore ts = false → Reads (.suffixes D d) ts rest →
    Reads (.direct d) (X ++ ts) rest
  behind : Behind X
  noStar : startsStar X = false

theorem startsStar_append {a b : List Token} (ha : startsStar a = false)
    (hb : startsStar b = false) : startsStar (a ++ b) = false := by
  cases a with
  | nil => exact hb
  | cons t rest => cases t <;> first | rfl | cases ha

theorem Direct.inner {X : List Token} {D : Declarator} (h : Direct X D) : Inner X D where
  reads hrest := .noPtr (startsStar_append h.noStar (startsStar_of_ends hrest))
    (h.reads (startsCore_of_ends hrest) (.noSuffix (startsSuffix_of_ends hrest)))
  behind := h.behind

/-- The name, or nothing, is the innermost declarator. -/
theorem direct_name (n : Option String) : Direct (n.toList.map .name) (.name n) := by
  cases n with
  | none => exact ⟨fun hcore h => .abstract hcore h, fun _ h => (by cases h), rfl⟩
  | some n => exact ⟨fun _ h => .name h, behind_cons rfl _, rfl⟩

/-- **A star may stand before a declarator.** -/
theorem Inner.star {X : List Token} {D : Declarator} (h : Inner X D) {tq : TypeQual}
    (htq : tq.Within pointerQualifiers) : Inner (.star :: tq.words.map .word ++ X) (.ptr tq D) where
  reads := by
    intro rest hrest
    have hquals := qualifiersOf_words (htq.mono (by decide))
    have hread := Reads.ptr (reads_words tq.words
      (startsWord_of_behind (h.behind.append (behind_of_ends hrest))))
      (words_all htq (by decide)) (h.reads hrest)
    rw [hquals] at hread
    show Reads _ (.star :: (tq.words.map .word ++ X) ++ rest) rest
    rw [List.cons_append, List.append_assoc]
    exact hread
  behind := behind_cons rfl _

/-- **In parentheses it takes suffixes.** -/
theorem Inner.group {X : List Token} {D : Declarator} (h : Inner (.star :: X) D) :
    Direct (.lparen :: (.star :: X ++ [.rparen])) D where
  reads := by
    intro d ts rest _ hd
    have hinner : Reads (.declarator D) (.star :: X ++ .rparen :: ts) (.rparen :: ts) :=
      h.reads trivial
    rw [List.cons_append, List.append_assoc]
    exact .group rfl hinner hd
  behind := behind_cons rfl _
  noStar := rfl

theorem Direct.array {X : List Token} {D : Declarator} (h : Direct X D) (dim : Expr) :
    Direct (X ++ .lbrack :: (dim.tokens ++ [.rbrack])) (.array D dim.asWritten) where
  reads := by
    intro d ts rest _ hd
    rw [List.append_assoc]
    refine h.reads rfl ?_
    unfold Expr.tokens
    unfold Expr.asWritten at hd
    cases hw : dim.written with
    | none =>
      rw [hw] at hd
      exact .array hd
    | some text =>
      rw [hw] at hd
      exact .dimension hd
  behind := h.behind.append (behind_cons rfl _)
  noStar := startsStar_append h.noStar rfl

theorem Direct.func {X : List Token} {D : Declarator} (h : Direct X D) {args : List Token}
    {a : Args} (hargs : ∀ ts, startsGroup (args ++ .rparen :: ts) = false)
    (hread : ∀ ts, Reads (.args a) (args ++ .rparen :: ts) (.rparen :: ts)) :
    Direct (X ++ .lparen :: (args ++ [.rparen])) (.func D a) where
  reads := by
    intro d ts rest _ hd
    rw [List.append_assoc, List.cons_append, List.append_assoc]
    exact h.reads (hargs ts) (.func (hread ts) hd)
  behind := h.behind.append (behind_cons rfl _)
  noStar := startsStar_append h.noStar rfl

/-- The declaration of a name with a type, as it is written. -/
def written (sc : Option StorageClass) (name : Option String) (t : Node) : Declaration where
  storage := sc.toList
  inline := .qual .T_INLINE ∈ t.words
  name := name
  type := t.asWritten

/-- The tokens of a declaration, when `sc` is printed first. -/
def declarationTokens (sc : Option StorageClass) (name : Option String) (t : Node) : List Token :=
  sc.toList.map (.word ∘ .storage) ++
    (t.words.map .word ++ t.base.tokens ++ t.stars) ++ name.toList.map .name ++ t.suffix

theorem behind_stars : ∀ t : Node, Behind t.stars
  | .Prim _ _ | .Tdef _ _ | .Sue _ _ _ _ => fun _ h => by cases h
  | .Ptr tq type => by
    refine ((behind_stars type).append ?_).append (behind_cons rfl _)
    cases type.isArrayOrFunc with
    | false => exact fun _ h => by cases h
    | true => exact behind_cons rfl _
  | .Adcl type _ => behind_stars type
  | .Fdcl _ _ returns => behind_stars returns

theorem behind_suffix : ∀ t : Node, Behind t.suffix
  | .Prim _ _ | .Tdef _ _ | .Sue _ _ _ _ => fun _ h => by cases h
  | .Ptr tq type => by
    rw [suffix_ptr]
    refine Behind.append ?_ (behind_suffix type)
    cases type.isArrayOrFunc with
    | false => exact fun _ h => by cases h
    | true => exact behind_cons rfl _
  | .Adcl type dim => by
    rw [suffix_adcl]
    exact behind_cons rfl _
  | .Fdcl _ args returns => by
    rw [suffix_fdcl]
    exact behind_cons rfl _

/-- The specifiers are read, and then the declarator. -/
theorem reads_declaration {t : Node} (h : t.WellQualified) (sc : Option StorageClass)
    (name : Option String) {rest : List Token} (hrest : Ends rest)
    (hd : Reads (.declarator (t.wrap (.name name)))
      (t.stars ++ name.toList.map .name ++ t.suffix ++ rest) rest) :
    Reads (.declaration (written sc name t)) (declarationTokens sc name t ++ rest) rest := by
  have hbehind : Behind (t.stars ++ name.toList.map .name ++ t.suffix ++ rest) :=
    (((behind_stars t).append (direct_name name).behind).append (behind_suffix t)).append
      (behind_of_ends hrest)
  have hbase : ∀ ts, startsWord (t.base.tokens ++ ts) = false := fun ts => by
    cases t.base <;> rfl
  have hnoWord : Reads (.words []) _ _ := .noWord (startsWord_of_behind hbehind)
  have hread := Reads.declaration (reads_words (sc.toList.map .storage ++ t.words) (hbase _))
    (reads_base t.base (startsFields_of_behind hbehind)) hnoWord ?_ hd
  · have hparts : Declaration.ofParts (sc.toList.map .storage ++ t.words ++ []) t.base
        (t.wrap (.name name)) = written sc name t := by
      have hquals : qualifiersOf (sc.toList.map .storage ++ t.words) = t.baseTq :=
        (qualifiersOf_append (fun q _ hq => by simp at hq) _).trans (qualifiersOf_node t h)
      unfold Declaration.ofParts written
      rw [List.append_nil, hquals, declares_wrap, List.filterMap_append, storage_words t h]
      cases sc with
      | none => rfl
      | some sc =>
        have hinline : (.qual .T_INLINE ∈ Word.storage sc :: t.words) ↔ .qual .T_INLINE ∈ t.words :=
          List.mem_cons.trans (or_iff_right Word.noConfusion)
        show Declaration.mk _ (decide (.qual .T_INLINE ∈ Word.storage sc :: t.words)) _ _ = _
        rw [decide_eq_decide.mpr hinline]
        rfl
    rw [hparts] at hread
    unfold declarationTokens
    simpa [List.map_append, List.append_assoc, Function.comp_def] using hread
  · rw [List.append_nil, List.all_append, words_specify t h]
    cases sc <;> rfl

/-- The declaration of a parameter, as it is written. -/
def Param.declaration : Param → Declaration
  | .type t => written none none t
  | .decl tq name t => written tq.storage (some name) t

theorem declaration_param {p : Param} (h : p.WellQualified) : p.declaration.param = p.asWritten := by
  cases p with
  | type type => rfl
  | decl tq name type =>
    have htq : tq = ⟨tq.storage, fun _ => false⟩ := TypeQual.ext rfl (funext h.1)
    show Param.decl ⟨tq.storage.toList.head?, _⟩ name _ = Param.decl tq name _
    rw [htq]
    cases tq.storage <;> rfl

theorem tokens_outputName (left : Text) (name : String) :
    tokens (OutputName left name) = tokens left ++ [.name name] := by
  unfold OutputName
  rw [tokens_append, tokens_append]
  cases endsInIdentifierChar left <;> exact congrArg (· ++ _) (List.append_nil _)

theorem words_storage (tq : TypeQual) :
    tq.storageClass.words.map .word = tq.storage.toList.map (Token.word ∘ .storage) := by
  cases h : tq.storage <;> simp [TypeQual.words, TypeQual.storageClass, h, printedQualifiers]

/-- **A text with a type and a name is that of a declaration.** -/
theorem tokens_outputDeclarator (name : Option String) {t : Node} (h : t.WellQualified) :
    tokens (OutputDeclarator name t) = declarationTokens none name t := by
  unfold declarationTokens
  cases name with
  | none =>
    show tokens (_ ++ _) = [] ++ _ ++ [] ++ t.suffix
    rw [tokens_append, tokens_left t h, List.append_nil]
    rfl
  | some name =>
    show tokens (_ ++ _) = [] ++ _ ++ [.name name] ++ t.suffix
    rw [tokens_append, tokens_outputName, tokens_left t h]
    rfl

theorem tokens_decl {tq : TypeQual} {name : String} {t : Node}
    (h : (Param.decl tq name t).WellQualified) :
    tokens (OutputParam (.decl tq name t)) = declarationTokens tq.storage (some name) t := by
  unfold declarationTokens
  rw [OutputParam, if_neg (by rw [h.1]; exact Bool.false_ne_true),
    if_neg (by rw [h.1]; exact Bool.false_ne_true), tokens_append, List.nil_append,
    tokens_outputName, tokens_append, tokens_TQ, words_storage, tokens_left t h.2]
  rfl

/-- The tokens that a declaration may begin with. -/
def Token.specifies : Token → Bool
  | word _ | basic _ | typedefName _ | sue _ => true
  | _ => false

theorem declarationTokens_starts (sc : Option StorageClass) (name : Option String) (t : Node) :
    ∃ t₀ ts, declarationTokens sc name t = t₀ :: ts ∧ t₀.specifies = true := by
  unfold declarationTokens
  cases sc with
  | some sc => exact ⟨_, _, rfl, rfl⟩
  | none =>
    cases t.words with
    | cons w ws => exact ⟨_, _, rfl, rfl⟩
    | nil => cases t.base <;> exact ⟨_, _, rfl, rfl⟩

theorem param_starts {p : Param} (h : p.WellQualified) :
    ∃ t₀ ts, tokens (OutputParam p) = t₀ :: ts ∧ t₀.specifies = true := by
  cases p with
  | type t =>
    rw [show tokens (OutputParam (.type t)) = _ from tokens_outputDeclarator none h]
    exact declarationTokens_starts _ _ _
  | decl tq name t =>
    rw [tokens_decl h]
    exact declarationTokens_starts _ _ _

theorem params_start {ps : Params} (h : ps.WellQualified) :
    ∃ t₀ ts, tokens (OutputParams ps) = t₀ :: ts ∧ t₀.specifies = true := by
  cases ps with
  | last p => exact param_starts h
  | ellipsis p =>
    obtain ⟨t₀, ts, heq, ht⟩ := param_starts (p := p) h
    refine ⟨t₀, ts ++ [.comma, .ellipsis], ?_, ht⟩
    rw [OutputParams, tokens_append, tokens_append, heq]
    simp
  | cons p rest =>
    obtain ⟨t₀, ts, heq, ht⟩ := param_starts h.1
    refine ⟨t₀, ts ++ .comma :: tokens (OutputParams rest), ?_, ht⟩
    rw [OutputParams, tokens_append, tokens_append, heq]
    simp

/-- Parameters do not look like a declarator in parentheses. -/
theorem startsGroup_args {a : Args} (h : a.WellQualified) (ts : List Token) :
    startsGroup (tokens (OutputArgs a) ++ .rparen :: ts) = false := by
  cases a with
  | null => rfl
  | list ps =>
    obtain ⟨t₀, ts', heq, ht⟩ := params_start (show ps.WellQualified from h)
    rw [OutputArgs, heq]
    cases t₀ <;> first | rfl | cases ht

mutual

/-- **The stars and the right half of a type are read around what stands in the
middle.** -/
theorem reads_wrap : ∀ (t : Node), t.WellQualified → ∀ {X : List Token} {D : Declarator},
    Inner X D → (t.isArrayOrFunc = true → Direct X D) → ∀ {rest}, Ends rest →
    Reads (.declarator (t.wrap D)) (t.stars ++ X ++ t.suffix ++ rest) rest
  | .Prim _ _, _, X, D, hX, _, rest, hrest | .Tdef _ _, _, X, D, hX, _, rest, hrest
  | .Sue _ _ _ _, _, X, D, hX, _, rest, hrest => by
    show Reads _ (X ++ [] ++ rest) rest
    rw [List.append_nil]
    exact hX.reads hrest
  | .Ptr tq type, h, X, D, hX, _, rest, hrest => by
    have hstar := hX.star (within_asWritten h.1)
    rw [suffix_ptr]
    show Reads (.declarator (type.wrap _)) (type.stars ++ _ ++ _ ++ X ++ _ ++ rest) rest
    cases harray : type.isArrayOrFunc with
    | false =>
      have hread := reads_wrap type h.2 hstar (fun h => Bool.noConfusion (harray.symm.trans h)) hrest
      simpa [List.append_assoc] using hread
    | true =>
      have hgroup := hstar.group
      have hread := reads_wrap type h.2 hgroup.inner (fun _ => hgroup) hrest
      simpa [List.append_assoc] using hread
  | .Adcl type dim, h, X, D, _, hX, rest, hrest => by
    have harray := (hX rfl).array dim
    have hread := reads_wrap type h harray.inner (fun _ => harray) hrest
    rw [suffix_adcl]
    show Reads (.declarator (type.wrap _)) (type.stars ++ X ++ _ ++ rest) rest
    simpa [List.append_assoc] using hread
  | .Fdcl tq args returns, h, X, D, _, hX, rest, hrest => by
    have hfunc := (hX rfl).func (startsGroup_args h.2.1) (reads_args args h.2.1)
    have hread := reads_wrap returns h.2.2 hfunc.inner (fun _ => hfunc) hrest
    rw [suffix_fdcl]
    show Reads (.declarator (returns.wrap _)) (returns.stars ++ X ++ _ ++ rest) rest
    simpa [List.append_assoc] using hread

theorem reads_args : ∀ (a : Args), a.WellQualified → ∀ (ts : List Token),
    Reads (.args a.asWritten) (tokens (OutputArgs a) ++ .rparen :: ts) (.rparen :: ts)
  | .null, _, ts => .noArgs
  | .list params, h, ts => by
    have hread := reads_params params h ts
    obtain ⟨t₀, ts', heq, ht⟩ := params_start (show params.WellQualified from h)
    rw [OutputArgs, heq]
    rw [heq] at hread
    refine .someArgs (fun hrparen => ?_) hread
    rw [hrparen] at ht
    cases ht

theorem reads_params : ∀ (ps : Params), ps.WellQualified → ∀ (ts : List Token),
    Reads (.params ps.asWritten) (tokens (OutputParams ps) ++ .rparen :: ts) (.rparen :: ts)
  | .last param, h, ts => by
    have hparam : Reads _ (tokens (OutputParam param) ++ .rparen :: ts) (.rparen :: ts) :=
      reads_param param h trivial
    have hread := Reads.last hparam rfl
    rw [declaration_param h] at hread
    exact hread
  | .ellipsis param, h, ts => by
    have hparam : Reads _ (tokens (OutputParam param) ++ .comma :: .ellipsis :: .rparen :: ts)
        (.comma :: .ellipsis :: .rparen :: ts) := reads_param param h trivial
    have hread := Reads.ellipsis hparam
    rw [declaration_param h] at hread
    rw [OutputParams, tokens_append, tokens_append, List.append_assoc, List.append_assoc]
    exact hread
  | .cons param rest, h, ts => by
    have hellipsis : startsEllipsis (tokens (OutputParams rest) ++ .rparen :: ts) = false := by
      obtain ⟨t₀, ts', heq, ht⟩ := params_start h.2
      rw [heq]
      cases t₀ <;> first | rfl | cases ht
    have hparam : Reads _ (tokens (OutputParam param) ++ .comma :: (tokens (OutputParams rest) ++
        .rparen :: ts)) (.comma :: (tokens (OutputParams rest) ++ .rparen :: ts)) :=
      reads_param param h.1 trivial
    have hread := Reads.cons hparam hellipsis (reads_params rest h.2 ts)
    rw [declaration_param h.1] at hread
    rw [OutputParams, tokens_append, tokens_append, List.append_assoc, List.append_assoc]
    exact hread

theorem reads_param : ∀ (p : Param), p.WellQualified → ∀ {rest : List Token}, Ends rest →
    Reads (.declaration p.declaration) (tokens (OutputParam p) ++ rest) rest
  | .type type, h, rest, hrest => by
    rw [show tokens (OutputParam (.type type)) = _ from tokens_outputDeclarator none h]
    exact reads_declaration h none none hrest
      (reads_wrap type h (direct_name none).inner (fun _ => direct_name none) hrest)
  | .decl tq name type, h, rest, hrest => by
    rw [tokens_decl h]
    exact reads_declaration h.2 tq.storage (some name) hrest
      (reads_wrap type h.2 (direct_name (some name)).inner (fun _ => direct_name (some name)) hrest)

end

/-! ## The round trip -/

/-- **A text is read as `d`**, and as nothing else. -/
def ReadAs (text : Text) (d : Declaration) : Prop :=
  ∃ ts, lex text = some ts ∧ ∀ d', Reads (.declaration d') ts [] ↔ d' = d

theorem ReadAs.unique {text : Text} {d d' : Declaration} (h : ReadAs text d)
    (h' : ReadAs text d') : d = d' := by
  obtain ⟨ts, hts, hd⟩ := h
  obtain ⟨ts', hts', hd'⟩ := h'
  obtain rfl := Option.some.inj (hts.symm.trans hts')
  exact (hd' d).mp ((hd d).mpr rfl)

theorem readAs_written (name : Option String) {t : Node} (h : t.WellQualified) :
    ReadAs (OutputDeclarator name t) (written none name t) := by
  refine ⟨_, lex_outputDeclarator name h, fun d' => ?_⟩
  have hread : Reads (.declaration (written none name t)) (declarationTokens none name t ++ []) [] :=
    reads_declaration h none name trivial
      (reads_wrap t h (direct_name name).inner (fun _ => direct_name name) trivial)
  rw [List.append_nil, ← tokens_outputDeclarator name h] at hread
  constructor
  · intro h'
    exact Phrase.declaration.inj (h'.unique hread trivial).1
  · rintro rfl
    exact hread

/-- **What is printed for a name and a type is read as the declaration of that
name with what is written of the type**, and a type of C is written in full. -/
theorem declarator_round_trip (name : Option String) (t : Node) (h : t.WellQualified) :
    ReadAs (OutputDeclarator name t) ⟨[], .qual .T_INLINE ∈ t.words, name, t.asWritten⟩ ∧
      (t.Plain → t.asWritten = t) :=
  ⟨readAs_written name h, t.asWritten_of_plain⟩

/-- `void (int)` -/
def handler : Node := .Fdcl EMPTY_TQ (.list (.last (.type (.Prim EMPTY_TQ .Sint))))
  (.Prim EMPTY_TQ .Void)

/-- `void (*(int sig, void (*)(int)))(int)`, a function that returns a pointer to
a function. -/
def signal : Node :=
  .Fdcl EMPTY_TQ
    (.list (.cons (.decl EMPTY_TQ "sig" (.Prim EMPTY_TQ .Sint))
      (.last (.type (.Ptr EMPTY_TQ handler)))))
    (.Ptr EMPTY_TQ handler)

theorem signal_plain : signal.Plain :=
  ⟨rfl, ⟨⟨fun _ => rfl, within_empty _⟩, within_empty _, rfl, within_empty _, within_empty _⟩,
    within_empty _, rfl, within_empty _, within_empty _⟩

theorem declarator_round_trip_signal :
    ReadAs (OutputDeclarator (some "signal") signal) ⟨[], false, some "signal", signal⟩ := by
  have h := declarator_round_trip (some "signal") signal (signal.wellQualified_of_plain signal_plain)
  rw [h.2 signal_plain] at h
  exact h.1

/-- `int * cilk` -/
def cilkPointer : Node := .Ptr ⟨none, fun q => q = .T_PROCEDURE⟩ (.Prim EMPTY_TQ .Sint)

/-- **The word `cilk` is not printed**, so the pointer that is read does not have
it. -/
theorem cilkPointer_not_read :
    ¬ ReadAs (OutputDeclarator (some "p") cilkPointer) ⟨[], false, some "p", cilkPointer⟩ := by
  intro h
  have hwell : cilkPointer.WellQualified :=
    ⟨⟨rfl, fun q hq => by rw [of_decide_eq_true hq]; decide⟩, within_empty _⟩
  have htype : cilkPointer.asWritten = cilkPointer :=
    congrArg Declaration.type ((readAs_written (some "p") hwell).unique h)
  have hhas := congrArg (fun t : Node => match t with
    | .Ptr tq _ => tq.has .T_PROCEDURE
    | _ => false) htype
  revert hhas
  decide

end Cilk.Declarators
