import Cilk.Declarators.Grammar
import Mathlib.Data.List.Chain

/-!
# The text of a type

What is written of a type: not `cilk` and `inlet`, not a dimension that was
computed and is not in the source, and not where a function has its `inline`.
All of it is written where the type is one of C.

And the text falls into its tokens again, since no two words are printed side by
side.
-/

namespace Cilk.Declarators

/-! ## What is written of a type -/

/-- What a type qualifier may have. -/
def TypeQual.Within (tq : TypeQual) (qs : List Qualifier) : Prop :=
  tq.storage = none ∧ ∀ q, tq.has q = true → q ∈ qs

/-- A dimension as it is written. -/
def Expr.asWritten (dim : Expr) : Expr :=
  match dim.written with
  | some text => .source text
  | none => .null

/-- Qualifiers without those of Cilk's procedures. -/
def TypeQual.asWritten (tq : TypeQual) : TypeQual := (tq.remove .T_PROCEDURE).remove .T_INLET

mutual

/-- **The qualifiers stand where they may**: those of C after a star and with the
base, and with them `cilk` and `inlet` after a star; `inline`, `cilk` and
`inlet` at a function; a storage class at a parameter. -/
def Node.WellQualified : Node → Prop
  | .Prim tq _ | .Tdef tq _ | .Sue _ tq _ _ => tq.Within typeQualifiers
  | .Ptr tq type => tq.Within (.T_PROCEDURE :: .T_INLET :: pointerQualifiers) ∧ type.WellQualified
  | .Adcl type _ => type.WellQualified
  | .Fdcl tq args returns =>
    tq.Within [.T_INLINE, .T_PROCEDURE, .T_INLET] ∧ args.WellQualified ∧ returns.WellQualified

/-- `WellQualified`, of the parameters. -/
def Args.WellQualified : Args → Prop
  | .null => True
  | .list params => params.WellQualified

def Params.WellQualified : Params → Prop
  | .last param | .ellipsis param => param.WellQualified
  | .cons param rest => param.WellQualified ∧ rest.WellQualified

/-- A parameter has no qualifiers besides those of its type. -/
def Param.WellQualified : Param → Prop
  | .type type => type.WellQualified
  | .decl tq _ type => (∀ q, tq.has q = false) ∧ type.WellQualified

end

mutual

/-- **What is written of a type.** -/
def Node.asWritten : Node → Node
  | .Prim tq basic => .Prim tq basic
  | .Tdef tq name => .Tdef tq name
  | .Sue kind tq name fields => .Sue kind tq name fields
  | .Ptr tq type => .Ptr tq.asWritten type.asWritten
  | .Adcl type dim => .Adcl type.asWritten dim.asWritten
  | .Fdcl _ args returns => .Fdcl EMPTY_TQ args.asWritten returns.asWritten

/-- `asWritten`, of the parameters. -/
def Args.asWritten : Args → Args
  | .null => .null
  | .list params => .list params.asWritten

def Params.asWritten : Params → Params
  | .last param => .last param.asWritten
  | .ellipsis param => .ellipsis param.asWritten
  | .cons param rest => .cons param.asWritten rest.asWritten

def Param.asWritten : Param → Param
  | .type type => .type type.asWritten
  | .decl tq name type => .decl tq name type.asWritten

end

mutual

/-- **A type of C**: nothing in it is left out when it is written. -/
def Node.Plain : Node → Prop
  | .Prim tq _ | .Tdef tq _ | .Sue _ tq _ _ => tq.Within typeQualifiers
  | .Ptr tq type => tq.Within pointerQualifiers ∧ type.Plain
  | .Adcl type dim => type.Plain ∧ (dim = .null ∨ ∃ text, dim = .source text)
  | .Fdcl tq args returns => tq = EMPTY_TQ ∧ args.Plain ∧ returns.Plain

/-- `Plain`, of the parameters. -/
def Args.Plain : Args → Prop
  | .null => True
  | .list params => params.Plain

def Params.Plain : Params → Prop
  | .last param | .ellipsis param => param.Plain
  | .cons param rest => param.Plain ∧ rest.Plain

def Param.Plain : Param → Prop
  | .type type => type.Plain
  | .decl tq _ type => (∀ q, tq.has q = false) ∧ type.Plain

end

/-- `cilk` and `inlet` are not written, and so are not there to be read. -/
theorem within_asWritten {tq : TypeQual} (h : tq.Within (.T_PROCEDURE :: .T_INLET :: pointerQualifiers)) :
    tq.asWritten.Within pointerQualifiers := by
  refine ⟨h.1, fun q hq => ?_⟩
  have hhas : ((tq.has q && decide (q ≠ .T_PROCEDURE)) && decide (q ≠ .T_INLET)) = true := hq
  rw [Bool.and_eq_true, Bool.and_eq_true, decide_eq_true_iff, decide_eq_true_iff] at hhas
  obtain ⟨⟨hhas, hprocedure⟩, hinlet⟩ := hhas
  have hmem := h.2 q hhas
  rw [List.mem_cons, List.mem_cons] at hmem
  exact (hmem.resolve_left hprocedure).resolve_left hinlet

/-- Qualifiers without `cilk` and `inlet` are all written. -/
theorem asWritten_of_within {tq : TypeQual} (h : tq.Within pointerQualifiers) :
    tq.asWritten = tq := by
  refine TypeQual.ext rfl (funext fun q => ?_)
  show ((tq.has q && decide (q ≠ .T_PROCEDURE)) && decide (q ≠ .T_INLET)) = tq.has q
  cases hq : tq.has q with
  | false => rfl
  | true =>
    have hmem := h.2 q hq
    revert hmem
    cases q <;> decide

mutual

/-- **A type of C is written in full.** -/
theorem Node.asWritten_of_plain : ∀ t : Node, t.Plain → t.asWritten = t
  | .Prim _ _, _ | .Tdef _ _, _ | .Sue _ _ _ _, _ => rfl
  | .Ptr tq type, h => by
    rw [Node.asWritten, asWritten_of_within h.1, Node.asWritten_of_plain type h.2]
  | .Adcl type dim, h => by
    obtain ⟨htype, rfl | ⟨text, rfl⟩⟩ := h
    · rw [Node.asWritten, Node.asWritten_of_plain type htype]
      rfl
    · rw [Node.asWritten, Node.asWritten_of_plain type htype]
      rfl
  | .Fdcl tq args returns, h => by
    obtain ⟨rfl, hargs, hreturns⟩ := h
    rw [Node.asWritten, Args.asWritten_of_plain args hargs,
      Node.asWritten_of_plain returns hreturns]

/-- Plain parameters are written as they are. -/
theorem Args.asWritten_of_plain : ∀ a : Args, a.Plain → a.asWritten = a
  | .null, _ => rfl
  | .list params, h => congrArg Args.list (Params.asWritten_of_plain params h)

theorem Params.asWritten_of_plain : ∀ ps : Params, ps.Plain → ps.asWritten = ps
  | .last param, h => congrArg Params.last (Param.asWritten_of_plain param h)
  | .ellipsis param, h => congrArg Params.ellipsis (Param.asWritten_of_plain param h)
  | .cons param rest, h =>
    congrArg₂ Params.cons (Param.asWritten_of_plain param h.1) (Params.asWritten_of_plain rest h.2)

theorem Param.asWritten_of_plain : ∀ p : Param, p.Plain → p.asWritten = p
  | .type type, h => congrArg Param.type (Node.asWritten_of_plain type h)
  | .decl tq name type, h => congrArg (Param.decl tq name) (Node.asWritten_of_plain type h.2)

end

/-- Qualifiers among fewer are among more. -/
theorem TypeQual.Within.mono {tq : TypeQual} {qs qs' : List Qualifier} (h : tq.Within qs)
    (hqs : ∀ q ∈ qs, q ∈ qs') : tq.Within qs' :=
  ⟨h.1, fun q hq => hqs q (h.2 q hq)⟩

theorem within_empty (qs : List Qualifier) : EMPTY_TQ.Within qs :=
  ⟨rfl, fun _ hq => Bool.noConfusion hq⟩

mutual

/-- Qualifiers of C are qualifiers that the grammar puts there. -/
theorem Node.wellQualified_of_plain : ∀ t : Node, t.Plain → t.WellQualified
  | .Prim _ _, h | .Tdef _ _, h | .Sue _ _ _ _, h => h
  | .Ptr _ type, h => ⟨h.1.mono fun _ hq => List.mem_cons_of_mem _ (List.mem_cons_of_mem _ hq),
      Node.wellQualified_of_plain type h.2⟩
  | .Adcl type _, h => Node.wellQualified_of_plain type h.1
  | .Fdcl tq args returns, h => by
    obtain ⟨rfl, hargs, hreturns⟩ := h
    exact ⟨within_empty _, Args.wellQualified_of_plain args hargs,
      Node.wellQualified_of_plain returns hreturns⟩

theorem Args.wellQualified_of_plain : ∀ a : Args, a.Plain → a.WellQualified
  | .null, _ => trivial
  | .list params, h => Params.wellQualified_of_plain params h

theorem Params.wellQualified_of_plain : ∀ ps : Params, ps.Plain → ps.WellQualified
  | .last param, h | .ellipsis param, h => Param.wellQualified_of_plain param h
  | .cons param rest, h =>
    ⟨Param.wellQualified_of_plain param h.1, Params.wellQualified_of_plain rest h.2⟩

theorem Param.wellQualified_of_plain : ∀ p : Param, p.Plain → p.WellQualified
  | .type type, h => Node.wellQualified_of_plain type h
  | .decl _ _ type, h => ⟨h.1, Node.wellQualified_of_plain type h.2⟩

end

/-! ## The tokens of a text -/

/-- Whether a piece begins and ends with an identifier character. -/
def Piece.isWord : Piece → Bool
  | token t => t.isWord
  | blank => false

/-- No two words stand side by side. -/
def Spaced (text : Text) : Prop := text.IsChain fun p p' => ¬ (p.isWord = true ∧ p'.isWord = true)

/-- A text that may stand behind any other. -/
def Closed (text : Text) : Prop := Spaced text ∧ ∀ p ∈ text.head?, p.isWord = false

/-- The tokens among the pieces of a text. -/
def tokens (text : Text) : List Token := text.filterMap fun
  | .token t => some t
  | .blank => none

/-- The tokens of a text are those of its parts. -/
@[simp] theorem tokens_append (a b : Text) : tokens (a ++ b) = tokens a ++ tokens b :=
  List.filterMap_append

@[simp] theorem tokens_nil : tokens [] = [] := rfl

@[simp] theorem tokens_blank : tokens [.blank] = [] := rfl

@[simp] theorem tokens_out (t : Token) : tokens (Out t) = [t] := rfl

/-- **A text in which no two words stand side by side falls into its tokens.** -/
theorem lex_of_spaced : ∀ {text : Text}, Spaced text → lex text = some (tokens text)
  | [], _ => rfl
  | .blank :: rest, h => by
    have hrest : Spaced rest := List.IsChain.tail h
    show lex rest = some (tokens rest)
    exact lex_of_spaced hrest
  | .token t :: [], _ => rfl
  | .token t :: .blank :: rest, h => by
    have hrest : Spaced (.blank :: rest) := List.IsChain.tail h
    have hlex := lex_of_spaced hrest
    show (lex (.blank :: rest)).map _ = _
    rw [hlex]
    rfl
  | .token t :: .token t' :: rest, h => by
    have hrest : Spaced (.token t' :: rest) := List.IsChain.tail h
    have hlex := lex_of_spaced hrest
    have hne : ¬ (t.isWord && t'.isWord) = true := by
      rw [Bool.and_eq_true]
      exact (List.isChain_cons_cons.mp h).1
    show (if t.isWord && t'.isWord then none else (lex (.token t' :: rest)).map _) = _
    rw [if_neg hne, hlex]
    rfl

/-- A text that is closed may stand behind any other. -/
theorem Spaced.append {a b : Text} (ha : Spaced a) (hb : Closed b) : Spaced (a ++ b) := by
  refine List.isChain_append.mpr ⟨ha, hb.1, fun x _ y hy hxy => ?_⟩
  exact absurd hxy.2 (by rw [hb.2 y hy]; exact Bool.noConfusion)

theorem closed_nil : Closed [] := ⟨List.isChain_nil, fun _ h => by cases h⟩

/-- Two closed texts are one. -/
theorem Closed.append {a b : Text} (ha : Closed a) (hb : Closed b) : Closed (a ++ b) := by
  refine ⟨ha.1.append hb, ?_⟩
  cases a with
  | nil => exact hb.2
  | cons p rest => exact ha.2

/-- A token that is no word is a closed text. -/
theorem closed_out {t : Token} (h : t.isWord = false) : Closed (Out t) :=
  ⟨List.isChain_singleton _, fun p hp => by cases hp; exact h⟩

theorem closed_ite {t : Token} (h : t.isWord = false) (c : Bool) :
    Closed (if c then Out t else []) := by
  cases c with
  | false => exact closed_nil
  | true => exact closed_out h

/-- Words with a blank behind each of them may stand before any text. -/
theorem spaced_TQ_append (tq : TypeQual) {text : Text} (h : Spaced text) :
    Spaced (OutputTQ tq ++ text) := by
  unfold OutputTQ
  induction tq.words with
  | nil => exact h
  | cons w ws ih =>
    rw [List.flatMap_cons, List.append_assoc]
    refine List.isChain_cons_cons.mpr ⟨fun hw => Bool.noConfusion hw.2, ?_⟩
    refine List.isChain_cons.mpr ⟨fun p _ hp => Bool.noConfusion hp.1, ih⟩

/-- Every word of a `TypeQual` has its blank. -/
theorem spaced_TQ (tq : TypeQual) : Spaced (OutputTQ tq) := by
  have h := spaced_TQ_append tq List.isChain_nil
  rwa [List.append_nil] at h

/-- A token that is no word may stand before the words. -/
theorem closed_out_TQ {t : Token} (h : t.isWord = false) (tq : TypeQual) :
    Closed (Out t ++ OutputTQ tq) := by
  refine ⟨List.isChain_cons.mpr ⟨fun p _ hp => ?_, spaced_TQ tq⟩, fun p hp => ?_⟩
  · exact absurd hp.1 (by rw [show (Piece.token t).isWord = t.isWord from rfl, h]; exact Bool.noConfusion)
  · cases hp
    exact h

/-- A piece in brackets may be missing. -/
theorem closed_toList {f : String → Token} (h : ∀ s, (f s).isWord = false) (o : Option String) :
    Closed (o.toList.map fun s => .token (f s)) := by
  cases o with
  | none => exact closed_nil
  | some s => exact closed_out (h s)

theorem endsInIdentifierChar_eq_false {text : Text} (h : endsInIdentifierChar text = false) :
    ∀ p ∈ text.getLast?, p.isWord = false := by
  intro p hp
  unfold endsInIdentifierChar at h
  rw [Option.mem_def] at hp
  rw [hp] at h
  cases p with
  | token t => exact h
  | blank => rfl

/-- **The name is told from what stands before it.** -/
theorem spaced_outputName {left : Text} (h : Spaced left) (name : String) :
    Spaced (OutputName left name) := by
  unfold OutputName
  cases hend : endsInIdentifierChar left with
  | true =>
    refine List.isChain_append.mpr ⟨?_, List.isChain_singleton _, ?_⟩
    · exact h.append ⟨List.isChain_singleton _, fun p hp => by cases hp; rfl⟩
    · intro x hx y _ hxy
      rw [if_pos rfl, List.getLast?_concat] at hx
      cases hx
      exact Bool.noConfusion hxy.1
  | false =>
    refine List.isChain_append.mpr ⟨?_, List.isChain_singleton _, ?_⟩
    · rw [if_neg Bool.false_ne_true, List.append_nil]
      exact h
    · intro x hx y _ hxy
      rw [if_neg Bool.false_ne_true, List.append_nil] at hx
      exact absurd hxy.1 (by rw [endsInIdentifierChar_eq_false hend x hx]; exact Bool.noConfusion)

mutual

/-- **The two halves of a type**: words stand side by side in neither, and the
right half may follow any text. -/
theorem Node.spaced_left : ∀ (t : Node) (sc : TypeQual), Spaced (OutputPartialType .Left t sc)
  | .Prim tq basic, sc => by
    rw [OutputPartialType, List.append_assoc]
    exact spaced_TQ_append _ (spaced_TQ_append _ (List.isChain_singleton _))
  | .Tdef tq name, sc => by
    rw [OutputPartialType, List.append_assoc]
    exact spaced_TQ_append _ (spaced_TQ_append _ (List.isChain_singleton _))
  | .Sue kind tq name fields, sc => by
    rw [OutputPartialType, List.append_assoc]
    refine spaced_TQ_append _ (spaced_TQ_append _ ?_)
    refine Spaced.append ?_ (closed_toList (fun _ => rfl) fields)
    refine List.isChain_cons_cons.mpr ⟨fun h => Bool.noConfusion h.2, ?_⟩
    exact List.isChain_cons_cons.mpr ⟨fun h => Bool.noConfusion h.1, List.isChain_singleton _⟩
  | .Ptr tq type, sc => by
    rw [OutputPartialType, List.append_assoc]
    exact ((Node.spaced_left type sc).append (closed_ite rfl _)).append (closed_out_TQ rfl _)
  | .Adcl type _, sc => by
    rw [OutputPartialType]
    exact Node.spaced_left type sc
  | .Fdcl tq args returns, sc => by
    rw [OutputPartialType]
    exact spaced_TQ_append _ (Node.spaced_left returns sc)

/-- **The right half of a type** begins and ends with punctuation. -/
theorem Node.closed_right : ∀ (t : Node) (sc : TypeQual), t.WellQualified →
    Closed (OutputPartialType .Right t sc)
  | .Prim _ _, sc, _ | .Tdef _ _, sc, _ | .Sue _ _ _ _, sc, _ => by
    rw [OutputPartialType]
    exact closed_nil
  | .Ptr tq type, sc, h => by
    rw [OutputPartialType]
    exact (closed_ite rfl _).append (Node.closed_right type sc h.2)
  | .Adcl type dim, sc, h => by
    rw [OutputPartialType]
    exact (((closed_out rfl).append (closed_toList (fun _ => rfl) _)).append
      (closed_out rfl)).append (Node.closed_right type sc h)
  | .Fdcl tq args returns, sc, h => by
    rw [OutputPartialType]
    refine Closed.append ⟨?_, fun p hp => ?_⟩ (Node.closed_right returns sc h.2.2)
    · refine Spaced.append ?_ (closed_out rfl)
      refine List.isChain_cons.mpr ⟨fun p _ hp => Bool.noConfusion hp.1, ?_⟩
      exact Args.spaced_text args h.2.1
    · cases hp
      rfl

/-- No two words of the parameters are fused. -/
theorem Args.spaced_text : ∀ a : Args, a.WellQualified → Spaced (OutputArgs a)
  | .null, _ => List.isChain_nil
  | .list params, h => Params.spaced_text params h

theorem Params.spaced_text : ∀ ps : Params, ps.WellQualified → Spaced (OutputParams ps)
  | .last param, h => Param.spaced_text param h
  | .ellipsis param, h =>
    ((Param.spaced_text param h).append (closed_out rfl)).append (closed_out rfl)
  | .cons param rest, h => by
    rw [OutputParams, List.append_assoc]
    refine (Param.spaced_text param h.1).append ⟨?_, fun p hp => ?_⟩
    · exact List.isChain_cons.mpr ⟨fun p _ hp => Bool.noConfusion hp.1,
        Params.spaced_text rest h.2⟩
    · cases hp
      rfl

theorem Param.spaced_text : ∀ p : Param, p.WellQualified → Spaced (OutputParam p)
  | .type type, h => (Node.spaced_left type _).append (Node.closed_right type _ h)
  | .decl tq name type, h => by
    rw [OutputParam, if_neg (by rw [h.1]; exact Bool.false_ne_true),
      if_neg (by rw [h.1]; exact Bool.false_ne_true)]
    refine (spaced_outputName ?_ name).append (Node.closed_right type _ h.2)
    exact spaced_TQ_append _ (Node.spaced_left type _)

end

/-- **The text of a type and a name falls into its tokens.** -/
theorem lex_outputDeclarator (name : Option String) {t : Node} (h : t.WellQualified) :
    lex (OutputDeclarator name t) = some (tokens (OutputDeclarator name t)) := by
  refine lex_of_spaced ?_
  cases name with
  | none => exact (Node.spaced_left t _).append (Node.closed_right t _ h)
  | some name =>
    exact (spaced_outputName (Node.spaced_left t _) name).append (Node.closed_right t _ h)

end Cilk.Declarators
