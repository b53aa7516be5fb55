import Mathlib.Data.List.Basic
import Mathlib.Tactic

/-!
# Executable transition systems

A concurrent program is read here as one initial state and a partial step
function: `step a s` is the state after the action `a`, or `none` when `a`
cannot be taken in `s`. Which agent moves, and how it resolves what the code
leaves open, is part of the action, so an interleaving is a list of actions
and every interleaving is some list.

Two readings of the same system are kept side by side. `run` executes a list
of actions and is what a concrete trace is evaluated with; `Reachable` is
what an invariant is proved over, and `Reachable.of_run` joins them. The rule
`Reachable.invariant` is the only induction over runs: a predicate that holds
initially and is kept by every step holds of every reachable state.
-/

/-- An executable labelled transition system. -/
structure TransitionSystem (σ α : Type*) where
  /-- The state before the first action. -/
  init : σ
  /-- The effect of an action, where it is enabled. -/
  step : α → σ → Option σ

namespace TransitionSystem

variable {σ α : Type*} (M : TransitionSystem σ α)

/-- The states some interleaving reaches. -/
inductive Reachable : σ → Prop
  | init : Reachable M.init
  | step {s s' : σ} (a : α) : Reachable s → M.step a s = some s' → Reachable s'

/-- A list of actions taken one after the other. -/
def run : List α → σ → Option σ
  | [], s => some s
  | a :: as, s => (M.step a s).bind (run as)

@[simp] theorem run_nil (s : σ) : M.run [] s = some s := rfl

@[simp] theorem run_cons (a : α) (as : List α) (s : σ) :
    M.run (a :: as) s = (M.step a s).bind (M.run as) := rfl

/-- **A predicate kept by every step is kept by every run.** -/
theorem run_induction {P : σ → Prop}
    (hstep : ∀ s s' a, P s → M.step a s = some s' → P s')
    {as : List α} {s s' : σ} (hs : P s) (hrun : M.run as s = some s') : P s' := by
  induction as generalizing s with
  | nil => exact Option.some.inj hrun ▸ hs
  | cons a as ih =>
    obtain ⟨t, ht, hrest⟩ := Option.bind_eq_some_iff.mp hrun
    exact ih (hstep _ _ _ hs ht) hrest

variable {M}

/-- What a run from a reachable state ends in is reachable. -/
theorem Reachable.run {as : List α} {s s' : σ} (hs : M.Reachable s)
    (hrun : M.run as s = some s') : M.Reachable s' :=
  M.run_induction (fun _ _ a h hst => .step a h hst) hs hrun

/-- The end of a run from the initial state is reachable. -/
theorem Reachable.of_run {as : List α} {s : σ} (hrun : M.run as M.init = some s) :
    M.Reachable s :=
  Reachable.init.run hrun

/-- **The rule of invariants**: a predicate that holds initially and that
every step keeps holds of every reachable state. The step may use that the
state it leaves is itself reachable, which is how one invariant is proved on
top of another. -/
theorem Reachable.invariant {P : σ → Prop} (hinit : P M.init)
    (hstep : ∀ s s' a, M.Reachable s → P s → M.step a s = some s' → P s')
    {s : σ} (hs : M.Reachable s) : P s := by
  induction hs with
  | init => exact hinit
  | step a hr hst ih => exact hstep _ _ a hr ih hst

/-- What evaluating a run shows of its end. -/
theorem Reachable.of_eval (as : List α) (p : σ → Bool)
    (h : (M.run as M.init).map p = some true) : ∃ s, M.Reachable s ∧ p s = true := by
  obtain ⟨s, hs, hp⟩ := Option.map_eq_some_iff.mp h
  exact ⟨s, .of_run hs, hp⟩

/-! ## Runs that stay inside a set of states -/

/-- `s'` is reached from `s` by a run all of whose states satisfy `P`. -/
inductive Within (M : TransitionSystem σ α) (P : σ → Prop) : σ → σ → Prop
  | refl {s : σ} : P s → Within M P s s
  | step {s s' s'' : σ} (a : α) : Within M P s s' → M.step a s' = some s'' → P s'' →
      Within M P s s''

namespace Within

variable {P Q : σ → Prop} {s s' : σ}

theorem holds (h : M.Within P s s') : P s' := by
  cases h with
  | refl h => exact h
  | step _ _ _ h => exact h

theorem reachable (h : M.Within P s s') (hs : M.Reachable s) : M.Reachable s' := by
  induction h with
  | refl _ => exact hs
  | step a _ hst _ ih => exact .step a ih hst

/-- What every step that stays inside keeps holds at the end. -/
theorem invariant (hs : M.Reachable s) (hQ : Q s)
    (hstep : ∀ t t' a, M.Reachable t → P t → P t' → Q t → M.step a t = some t' → Q t')
    (h : M.Within P s s') : Q s' := by
  induction h with
  | refl _ => exact hQ
  | step a h hst hP ih => exact hstep _ _ a (h.reachable hs) h.holds hP ih hst

end Within

/-! ## Histories

A history is a list of events, the latest first. -/

/-- The history `t'` is `t` with later events that satisfy `P`. -/
def Extends {ε : Type*} (P : ε → Prop) (t t' : List ε) : Prop :=
  ∃ es, t' = es ++ t ∧ ∀ e ∈ es, P e

namespace Extends

variable {ε : Type*} {P Q : ε → Prop} {t t' t'' : List ε}

theorem refl (t : List ε) : Extends P t t :=
  ⟨[], rfl, List.forall_mem_nil P⟩

theorem cons {e : ε} (he : P e) (h : Extends P t t') : Extends P t (e :: t') := by
  obtain ⟨es, rfl, hes⟩ := h
  exact ⟨e :: es, rfl, List.forall_mem_cons.mpr ⟨he, hes⟩⟩

theorem trans (h : Extends P t t') (h' : Extends P t' t'') : Extends P t t'' := by
  obtain ⟨es, rfl, hes⟩ := h
  obtain ⟨es', rfl, hes'⟩ := h'
  exact ⟨es' ++ es, (List.append_assoc ..).symm, List.forall_mem_append.mpr ⟨hes', hes⟩⟩

theorem mono (h : Extends P t t') (hPQ : ∀ e, P e → Q e) : Extends Q t t' := by
  obtain ⟨es, ht, hes⟩ := h
  exact ⟨es, ht, fun e he => hPQ e (hes e he)⟩

/-- The event on top was added. -/
theorem head {e : ε} {es : List ε} (h : Extends P t (e :: (es ++ t))) : P e := by
  obtain ⟨es', ht, hes⟩ := h
  have hes' : e :: es = es' := List.append_cancel_right (by rw [← ht]; rfl)
  exact hes e (hes' ▸ List.mem_cons_self)

end Extends

/-- Every event of the history is related by `R` to what came before it. -/
def Throughout {ε : Type*} (R : ε → List ε → Prop) (t : List ε) : Prop :=
  ∀ t₁ e t₂, t = t₁ ++ e :: t₂ → R e t₂

namespace Throughout

variable {ε : Type*} {R : ε → List ε → Prop} {P : ε → Prop} {t t' : List ε} {e : ε}

theorem nil : Throughout R [] := by
  intro t₁ e t₂ he
  exact absurd he.symm (List.append_ne_nil_of_right_ne_nil _ (List.cons_ne_nil e t₂))

theorem cons (h : Throughout R t) (he : R e t) : Throughout R (e :: t) := by
  intro t₁ e' t₂ ht
  cases t₁ with
  | nil =>
    obtain ⟨rfl, rfl⟩ := List.cons.inj ht
    exact he
  | cons a t₁ => exact h t₁ e' t₂ (List.cons.inj ht).2

/-- What holds of the later events whatever came before them. -/
theorem extend (h : Throughout R t) (ht : Extends P t t') (hR : ∀ e s, P e → R e s) :
    Throughout R t' := by
  obtain ⟨es, rfl, hes⟩ := ht
  induction es with
  | nil => exact h
  | cons a es ih =>
    exact (ih (List.forall_mem_cons.mp hes).2).cons (hR _ _ (List.forall_mem_cons.mp hes).1)

end Throughout

/-- **What every step adds to a history, a run adds to it.** -/
theorem run_extends {ε : Type*} {P : σ → Prop} {Q : ε → Prop} (history : σ → List ε)
    (hstep : ∀ s s' a, P s → M.step a s = some s' →
      P s' ∧ Extends Q (history s) (history s'))
    {as : List α} {s s' : σ} (hs : P s) (hrun : M.run as s = some s') :
    P s' ∧ Extends Q (history s) (history s') := by
  refine M.run_induction (P := fun t => P t ∧ Extends Q (history s) (history t)) ?_
    ⟨hs, .refl _⟩ hrun
  intro t t' a ht hst
  have hnext := hstep t t' a ht.1 hst
  exact ⟨hnext.1, ht.2.trans hnext.2⟩

end TransitionSystem
