import Cilk.LinkedDeques
import Cilk.Scheduler.State

/-!
# The links of the ready deques

The deque functions of `runtime/sched.c` as they are written: over the end
pointers of the deques and the link fields of the closures, with the
assertions and the debugging fields a build with `CILK_DEBUG` has. A failed
assertion, a step through a null pointer and the wait for a mutex are `none`.

Above them are the sequences the deques are for, with the calls the scheduler
may make of them, and one lemma that each call acts on the links as it does
on the sequences.
-/

namespace Cilk

variable {W : Type}

/-! ## The code -/

/-- What the deque functions read and write of the deques (`mutex`,
`mutex_owner`, `top`, `bottom`) and of the closures (`next_ready`,
`prev_ready`, `owner_ready_deque`). `NULL` and `NOBODY` are `none`. -/
structure ReadyDeques (W : Type) where
  mutex : W → Bool
  mutexOwner : W → Option W
  top : W → Option ClosureId
  bottom : W → Option ClosureId
  nextReady : ClosureId → Option ClosureId
  prevReady : ClosureId → Option ClosureId
  ownerReadyDeque : ClosureId → Option W

/-- `CILK_ASSERT`, which only a debugging build checks. -/
def cilkAssert (debug b : Bool) : Option Unit :=
  if debug && !b then none else some ()

namespace ReadyDeques

variable [DecidableEq W]

/-! The assignments. -/

/-- `deque->top = v`. -/
def setTop (m : ReadyDeques W) (pn : W) (v : Option ClosureId) : ReadyDeques W :=
  { m with top := Function.update m.top pn v }

/-- `deque->bottom = v`. -/
def setBottom (m : ReadyDeques W) (pn : W) (v : Option ClosureId) : ReadyDeques W :=
  { m with bottom := Function.update m.bottom pn v }

/-- `cl->next_ready = v`. -/
def setNextReady (m : ReadyDeques W) (cl : ClosureId) (v : Option ClosureId) : ReadyDeques W :=
  { m with nextReady := Function.update m.nextReady cl v }

/-- `cl->prev_ready = v`. -/
def setPrevReady (m : ReadyDeques W) (cl : ClosureId) (v : Option ClosureId) : ReadyDeques W :=
  { m with prevReady := Function.update m.prevReady cl v }

/-- `WHEN_CILK_DEBUG(cl->owner_ready_deque = v)`. -/
def setOwnerReadyDeque (m : ReadyDeques W) (debug : Bool) (cl : ClosureId) (v : Option W) :
    ReadyDeques W :=
  if debug then { m with ownerReadyDeque := Function.update m.ownerReadyDeque cl v } else m

/-- `WHEN_CILK_DEBUG(deques[pn].mutex_owner = v)`. -/
def setMutexOwner (m : ReadyDeques W) (debug : Bool) (pn : W) (v : Option W) : ReadyDeques W :=
  if debug then { m with mutexOwner := Function.update m.mutexOwner pn v } else m

/-- The mutex of a deque. -/
def setMutex (m : ReadyDeques W) (pn : W) (b : Bool) : ReadyDeques W :=
  { m with mutex := Function.update m.mutex pn b }

/-! The functions. `self` is the worker that makes the call. -/

/-- `deque_assert_ownership`: the debugging version compares the owner. -/
def dequeAssertOwnership (debug : Bool) (self pn : W) (m : ReadyDeques W) : Option Unit :=
  cilkAssert debug (m.mutexOwner pn == some self)

/-- `deque_lock`, of a mutex that is free. -/
def dequeLock (debug : Bool) (self pn : W) (m : ReadyDeques W) : Option (ReadyDeques W) :=
  if m.mutex pn then none
  else some ((m.setMutex pn true).setMutexOwner debug pn (some self))

/-- `deque_unlock`. -/
def dequeUnlock (debug : Bool) (pn : W) (m : ReadyDeques W) : ReadyDeques W :=
  (m.setMutexOwner debug pn none).setMutex pn false

/-- `deque_xtract_top`. -/
def dequeXtractTop (debug : Bool) (self pn : W) (m : ReadyDeques W) :
    Option (Option ClosureId × ReadyDeques W) := do
  dequeAssertOwnership debug self pn m
  match m.top pn with
  | some cl =>
    cilkAssert debug (m.ownerReadyDeque cl == some pn)
    let m := m.setTop pn (m.nextReady cl)
    if m.bottom pn = some cl then
      cilkAssert debug (m.nextReady cl == none)
      return (some cl, (m.setBottom pn none).setOwnerReadyDeque debug cl none)
    else
      cilkAssert debug (m.nextReady cl).isSome
      let next ← m.nextReady cl
      return (some cl, (m.setPrevReady next none).setOwnerReadyDeque debug cl none)
  | none =>
    cilkAssert debug (m.bottom pn == none)
    return (none, m)

/-- `deque_peek_top`. -/
def dequePeekTop (debug : Bool) (self pn : W) (m : ReadyDeques W) :
    Option (Option ClosureId) := do
  dequeAssertOwnership debug self pn m
  match m.top pn with
  | some cl => cilkAssert debug (m.ownerReadyDeque cl == some pn)
  | none => cilkAssert debug (m.bottom pn == none)
  return m.top pn

/-- `deque_xtract_bottom`. -/
def dequeXtractBottom (debug : Bool) (self pn : W) (m : ReadyDeques W) :
    Option (Option ClosureId × ReadyDeques W) := do
  dequeAssertOwnership debug self pn m
  match m.bottom pn with
  | some cl =>
    cilkAssert debug (m.ownerReadyDeque cl == some pn)
    let m := m.setBottom pn (m.prevReady cl)
    if m.top pn = some cl then
      cilkAssert debug (m.prevReady cl == none)
      return (some cl, (m.setTop pn none).setOwnerReadyDeque debug cl none)
    else
      cilkAssert debug (m.prevReady cl).isSome
      let prev ← m.prevReady cl
      return (some cl, (m.setNextReady prev none).setOwnerReadyDeque debug cl none)
  | none =>
    cilkAssert debug (m.top pn == none)
    return (none, m)

/-- `deque_peek_bottom`. -/
def dequePeekBottom (debug : Bool) (self pn : W) (m : ReadyDeques W) :
    Option (Option ClosureId) := do
  dequeAssertOwnership debug self pn m
  match m.bottom pn with
  | some cl => cilkAssert debug (m.ownerReadyDeque cl == some pn)
  | none => cilkAssert debug (m.top pn == none)
  return m.bottom pn

/-- `deque_add_bottom`. -/
def dequeAddBottom (debug : Bool) (self : W) (cl : ClosureId) (pn : W) (m : ReadyDeques W) :
    Option (ReadyDeques W) := do
  dequeAssertOwnership debug self pn m
  cilkAssert debug (m.ownerReadyDeque cl == none)
  let m := m.setPrevReady cl (m.bottom pn)
  let m := m.setNextReady cl none
  let m := m.setBottom pn (some cl)
  let m := m.setOwnerReadyDeque debug cl (some pn)
  if (m.top pn).isSome then
    cilkAssert debug (m.prevReady cl).isSome
    let prev ← m.prevReady cl
    return m.setNextReady prev (some cl)
  else return m.setTop pn (some cl)

/-- `Closure_init`, as far as the deques are concerned. -/
def closureInit (debug : Bool) (cl : ClosureId) (m : ReadyDeques W) : ReadyDeques W :=
  ((m.setNextReady cl none).setPrevReady cl none).setOwnerReadyDeque debug cl none

/-- What `promote_child` asserts of the place of the parent. -/
def assertPromotable (debug : Bool) (self : W) (parent : ClosureId) (victim : W)
    (m : ReadyDeques W) : Option Unit := do
  dequeAssertOwnership debug self victim m
  cilkAssert debug (m.ownerReadyDeque parent == some victim)
  cilkAssert debug (m.nextReady parent == none)

end ReadyDeques

/-! ## The calls -/

/-- A call of one of the functions, by the worker `self`. -/
inductive DequeCall (W : Type)
  | lock (self pn : W)
  | unlock (self pn : W)
  | peekTop (self pn : W)
  | xtractTop (self pn : W)
  | peekBottom (self pn : W)
  | xtractBottom (self pn : W)
  | addBottom (self : W) (cl : ClosureId) (pn : W)
  | closureInit (cl : ClosureId)
  | assertPromotable (self : W) (parent : ClosureId) (victim : W)
  deriving DecidableEq, Repr

/-- What the call returns, and the links after it. -/
def DequeCall.exec [DecidableEq W] (debug : Bool) (m : ReadyDeques W) :
    DequeCall W → Option (Option ClosureId × ReadyDeques W)
  | lock self pn => (m.dequeLock debug self pn).map (none, ·)
  | unlock _ pn => some (none, m.dequeUnlock debug pn)
  | peekTop self pn => (m.dequePeekTop debug self pn).map (·, m)
  | xtractTop self pn => m.dequeXtractTop debug self pn
  | peekBottom self pn => (m.dequePeekBottom debug self pn).map (·, m)
  | xtractBottom self pn => m.dequeXtractBottom debug self pn
  | addBottom self cl pn => (m.dequeAddBottom debug self cl pn).map (none, ·)
  | closureInit cl => some (none, m.closureInit debug cl)
  | assertPromotable self parent victim =>
    (m.assertPromotable debug self parent victim).map fun _ => (none, m)

/-- Some calls one after the other, and what they return. -/
def ReadyDeques.run [DecidableEq W] (debug : Bool) :
    List (DequeCall W) → ReadyDeques W → Option (List (Option ClosureId) × ReadyDeques W)
  | [], m => some ([], m)
  | c :: cs, m => do
    let (r, m) ← c.exec debug m
    let (rs, m) ← ReadyDeques.run debug cs m
    return (r :: rs, m)

/-! ## The sequences -/

/-- What the deques are for: a sequence of closures for each worker, from the
top to the bottom, and who has its lock. `created` are the closures
`Closure_init` has seen. -/
structure ReadyQueues (W : Type) where
  queue : W → List ClosureId
  holder : W → Option W
  created : ClosureId → Prop

namespace DequeCall

/-- When the scheduler may make a call: under the lock of the deque, and with
a closure that is in no deque where one is put into a deque. -/
def Allowed (Q : ReadyQueues W) : DequeCall W → Prop
  | lock _ pn => Q.holder pn = none
  | unlock self pn | peekTop self pn | xtractTop self pn | peekBottom self pn
  | xtractBottom self pn => Q.holder pn = some self
  | addBottom self cl pn =>
    Q.holder pn = some self ∧ Q.created cl ∧ ∀ v, cl ∉ Q.queue v
  | closureInit cl => ∀ v, cl ∉ Q.queue v
  | assertPromotable self parent victim =>
    Q.holder victim = some self ∧ (Q.queue victim).getLast? = some parent

/-- What a call returns. -/
def answer (Q : ReadyQueues W) : DequeCall W → Option ClosureId
  | peekTop _ pn | xtractTop _ pn => (Q.queue pn).head?
  | peekBottom _ pn | xtractBottom _ pn => (Q.queue pn).getLast?
  | lock .. | unlock .. | addBottom .. | closureInit _ | assertPromotable .. => none

/-- What a call does to the sequences. -/
def apply [DecidableEq W] (Q : ReadyQueues W) : DequeCall W → ReadyQueues W
  | lock self pn => { Q with holder := Function.update Q.holder pn (some self) }
  | unlock _ pn => { Q with holder := Function.update Q.holder pn none }
  | xtractTop _ pn => { Q with queue := Function.update Q.queue pn (Q.queue pn).tail }
  | xtractBottom _ pn => { Q with queue := Function.update Q.queue pn (Q.queue pn).dropLast }
  | addBottom _ cl pn => { Q with queue := Function.update Q.queue pn (Q.queue pn ++ [cl]) }
  | closureInit cl => { Q with created := Function.update Q.created cl True }
  | peekTop .. | peekBottom .. | assertPromotable .. => Q

end DequeCall

/-- **A run on the sequences**: allowed calls, each with what it returns. -/
inductive ReadyQueues.Run [DecidableEq W] :
    ReadyQueues W → List (DequeCall W × Option ClosureId) → ReadyQueues W → Prop
  | nil (Q : ReadyQueues W) : Run Q [] Q
  | cons {Q Q' : ReadyQueues W} {c : DequeCall W} {cs : List (DequeCall W × Option ClosureId)}
      (hc : c.Allowed Q) (hcs : Run (c.apply Q) cs Q') : Run Q ((c, c.answer Q) :: cs) Q'

/-! ## The links stand for the sequences -/

namespace ReadyDeques

/-- The pointers, without the mutexes and the debugging fields. -/
def links (m : ReadyDeques W) : LinkedDeques W ClosureId :=
  { top := m.top, bottom := m.bottom, next := m.nextReady, prev := m.prevReady }

/-- **The links stand for the sequences.** Nothing is said of the link fields
of a closure that is in no deque. -/
structure Represents (debug : Bool) (m : ReadyDeques W) (Q : ReadyQueues W) : Prop where
  links : m.links.Represents Q.queue
  created : ∀ v, ∀ c ∈ Q.queue v, Q.created c
  mutex : ∀ v, m.mutex v = (Q.holder v).isSome
  mutexOwner : debug = true → ∀ v, m.mutexOwner v = Q.holder v
  ownerReadyDeque : debug = true →
    ∀ c, Q.created c → ∀ v, m.ownerReadyDeque c = some v ↔ c ∈ Q.queue v

namespace Represents

variable {debug : Bool} {m m' : ReadyDeques W} {Q : ReadyQueues W} {self pn : W}
  {cl : ClosureId} {l : List ClosureId}

/-- `top` is the first closure of the deque. -/
theorem top (h : m.Represents debug Q) (pn : W) : m.top pn = (Q.queue pn).head? :=
  h.links.top pn

/-- `bottom` is the last closure of the deque. -/
theorem bottom (h : m.Represents debug Q) (pn : W) : m.bottom pn = (Q.queue pn).getLast? :=
  h.links.bottom pn

/-- An assertion that holds is passed, in either version. -/
theorem cilkAssert_eq {b : Bool} (hb : debug = true → b = true) :
    cilkAssert debug b = some () := by
  unfold cilkAssert
  cases debug
  · rfl
  · rw [hb rfl]
    rfl

/-- **The pointers left in closures that are in no deque do not matter.** -/
theorem stale (h : m.Represents debug Q) (hcl : ∀ v, cl ∉ Q.queue v)
    (next prev : Option ClosureId) :
    ((m.setNextReady cl next).setPrevReady cl prev).Represents debug Q where
  links := by
    have hne : ∀ v, ∀ c ∈ Q.queue v, c ≠ cl := fun v c hc he => hcl v (he ▸ hc)
    exact h.links.congr rfl rfl (fun v c hc => Function.update_of_ne (hne v c hc) ..)
      fun v c hc => Function.update_of_ne (hne v c hc) ..
  created := h.created
  mutex := h.mutex
  mutexOwner := h.mutexOwner
  ownerReadyDeque := h.ownerReadyDeque

/-- A closure that is in no deque has no owner. -/
theorem owner_eq_none (h : m.Represents debug Q) (hd : debug = true) (hcreated : Q.created cl)
    (hcl : ∀ v, cl ∉ Q.queue v) : m.ownerReadyDeque cl = none := by
  rcases ho : m.ownerReadyDeque cl with _ | v
  · rfl
  · exact absurd ((h.ownerReadyDeque hd cl hcreated v).mp ho) (hcl v)

variable [DecidableEq W]

/-- Who holds the deque passes the assertion. -/
theorem assertOwnership (h : m.Represents debug Q) (hself : Q.holder pn = some self) :
    m.dequeAssertOwnership debug self pn = some () := by
  refine cilkAssert_eq fun hd => ?_
  rw [h.mutexOwner hd, hself]
  exact beq_self_eq_true _

/-- A deque that is free is locked. -/
theorem lock (h : m.Represents debug Q) (hfree : Q.holder pn = none) :
    ∃ m', m.dequeLock debug self pn = some m' ∧
      m'.Represents debug ((DequeCall.lock self pn).apply Q) := by
  have hmutex : m.mutex pn = false := by rw [h.mutex, hfree]; rfl
  refine ⟨_, if_neg (by rw [hmutex]; exact Bool.false_ne_true), ?_⟩
  unfold setMutexOwner
  constructor
  case links => split <;> exact h.links
  case created => exact h.created
  case ownerReadyDeque => split <;> exact h.ownerReadyDeque
  case mutex =>
    intro v
    by_cases hv : v = pn
    · subst hv
      split <;> simp [setMutex, DequeCall.apply]
    · split <;> simp [setMutex, DequeCall.apply, hv, h.mutex]
  case mutexOwner =>
    intro hd v
    by_cases hv : v = pn
    · subst hv
      simp [hd, DequeCall.apply]
    · simp [hd, setMutex, DequeCall.apply, hv, h.mutexOwner hd]

/-- A deque is unlocked. -/
theorem unlock (h : m.Represents debug Q) :
    (m.dequeUnlock debug pn).Represents debug ((DequeCall.unlock self pn).apply Q) := by
  unfold dequeUnlock setMutexOwner
  constructor
  case links => split <;> exact h.links
  case created => exact h.created
  case ownerReadyDeque => split <;> exact h.ownerReadyDeque
  case mutex =>
    intro v
    by_cases hv : v = pn
    · subst hv
      split <;> simp [setMutex, DequeCall.apply]
    · split <;> simp [setMutex, DequeCall.apply, hv, h.mutex]
  case mutexOwner =>
    intro hd v
    by_cases hv : v = pn
    · subst hv
      simp [hd, setMutex, DequeCall.apply]
    · simp [hd, setMutex, DequeCall.apply, hv, h.mutexOwner hd]

/-- What is peeked at is the first closure. -/
theorem peekTop (h : m.Represents debug Q) (hself : Q.holder pn = some self) :
    m.dequePeekTop debug self pn = some (Q.queue pn).head? := by
  unfold dequePeekTop
  rw [h.assertOwnership hself, h.top pn, h.bottom pn]
  rcases hq : Q.queue pn with _ | ⟨c, l⟩
  · show (cilkAssert debug true).bind _ = _
    rw [cilkAssert_eq fun _ => rfl]
    rfl
  · have hc : c ∈ Q.queue pn := hq ▸ List.mem_cons_self ..
    show (cilkAssert debug _).bind _ = _
    rw [cilkAssert_eq fun hd => beq_iff_eq.mpr
      ((h.ownerReadyDeque hd c (h.created pn c hc) pn).mpr hc)]
    rfl

/-- What is peeked at is the last closure. -/
theorem peekBottom (h : m.Represents debug Q) (hself : Q.holder pn = some self) :
    m.dequePeekBottom debug self pn = some (Q.queue pn).getLast? := by
  unfold dequePeekBottom
  rw [h.assertOwnership hself, h.top pn, h.bottom pn]
  rcases List.eq_nil_or_concat (Q.queue pn) with hq | ⟨l, c, hq⟩
  · rw [hq]
    show (cilkAssert debug true).bind _ = _
    rw [cilkAssert_eq fun _ => rfl]
    rfl
  · rw [hq, List.concat_eq_append, List.getLast?_concat]
    have hc : c ∈ Q.queue pn := by
      rw [hq, List.concat_eq_append]
      exact List.mem_append_right l (List.mem_singleton_self c)
    show (cilkAssert debug _).bind _ = _
    rw [cilkAssert_eq fun hd => beq_iff_eq.mpr
      ((h.ownerReadyDeque hd c (h.created pn c hc) pn).mpr hc)]
    rfl

/-- The debugging field of a closure that comes out of its deque. -/
theorem removed (h : m.Represents debug Q) (hl : ∀ c, c ∈ l ↔ c ∈ Q.queue pn ∧ c ≠ cl)
    (hcl : cl ∈ Q.queue pn) (hlinks : m'.links.Represents (Function.update Q.queue pn l))
    (hmutex : m'.mutex = m.mutex) (howner : m'.mutexOwner = m.mutexOwner)
    (hready : m'.ownerReadyDeque = m.ownerReadyDeque) :
    (m'.setOwnerReadyDeque debug cl none).Represents debug
      { Q with queue := Function.update Q.queue pn l } := by
  have hmem : ∀ v c, c ∈ Function.update Q.queue pn l v ↔ c ∈ Q.queue v ∧ c ≠ cl := by
    intro v c
    by_cases hv : v = pn
    · rw [hv, Function.update_self]
      exact hl c
    · rw [Function.update_of_ne hv]
      refine ⟨fun hc => ⟨hc, fun he => hv ?_⟩, And.left⟩
      exact h.links.disjoint v pn cl (he ▸ hc) hcl
  unfold setOwnerReadyDeque
  constructor
  case links => split <;> exact hlinks
  case created => exact fun v c hc => h.created v c ((hmem v c).mp hc).1
  case mutex =>
    intro v
    rw [← h.mutex v, ← hmutex]
    split <;> rfl
  case mutexOwner =>
    intro hd v
    rw [← h.mutexOwner hd v, ← howner]
    split <;> rfl
  case ownerReadyDeque =>
    intro hd c hc v
    rw [if_pos hd, hmem]
    show Function.update m'.ownerReadyDeque cl none c = some v ↔ _
    by_cases hcc : c = cl
    · rw [hcc, Function.update_self]
      exact ⟨nofun, fun hne => absurd rfl hne.2⟩
    · rw [Function.update_of_ne hcc, hready, h.ownerReadyDeque hd c hc v]
      exact ⟨fun hm => ⟨hm, hcc⟩, And.left⟩

/-- **`deque_xtract_top` takes the first closure.** -/
theorem xtractTop (h : m.Represents debug Q) (hself : Q.holder pn = some self) :
    ∃ m', m.dequeXtractTop debug self pn = some ((Q.queue pn).head?, m') ∧
      m'.Represents debug ((DequeCall.xtractTop self pn).apply Q) := by
  have hcases : Q.queue pn = [] ∨ ∃ c l, Q.queue pn = c :: l := by
    cases Q.queue pn
    · exact .inl rfl
    · exact .inr ⟨_, _, rfl⟩
  have htop := h.top pn
  have hbottom := h.bottom pn
  show ∃ m' : ReadyDeques W, m.dequeXtractTop debug self pn = some (_, m') ∧ m'.Represents debug
    { Q with queue := Function.update Q.queue pn (Q.queue pn).tail }
  unfold dequeXtractTop
  rw [h.assertOwnership hself]
  rcases hcases with hq | ⟨c, l, hq⟩
  · rw [hq] at htop hbottom ⊢
    refine ⟨m, ?_, ?_⟩
    · simp [htop, hbottom, cilkAssert_eq]
    · rw [List.tail_nil, ← hq, Function.update_eq_self]
      exact h
  · have hc : c ∈ Q.queue pn := hq ▸ List.mem_cons_self ..
    have hlinks := h.links.removeTop hq
    have hnext : m.nextReady c = l.head? := h.links.below pn [c] l hq
    have hnd := h.links.nodup pn
    have howner : cilkAssert debug (m.ownerReadyDeque c == some pn) = some () :=
      cilkAssert_eq fun hd => beq_iff_eq.mpr
        ((h.ownerReadyDeque hd c (h.created pn c hc) pn).mpr hc)
    have hl : ∀ d, d ∈ l ↔ d ∈ Q.queue pn ∧ d ≠ c := by
      rw [hq, List.nodup_cons] at hnd
      intro d
      rw [hq, List.mem_cons]
      exact ⟨fun hd => ⟨.inr hd, fun he => hnd.1 (he ▸ hd)⟩, fun hd => hd.1.resolve_left hd.2⟩
    rw [hq, List.head?_cons] at htop
    rw [hq] at hbottom
    unfold LinkedDeques.removeTop at hlinks
    rw [show m.links.next c = l.head? from hnext] at hlinks
    rw [hq, List.tail_cons, List.head?_cons]
    rcases l with _ | ⟨d, l⟩
    · refine ⟨((m.setTop pn none).setBottom pn none).setOwnerReadyDeque debug c none, ?_,
        h.removed hl hc hlinks rfl rfl rfl⟩
      simp [htop, howner, hnext, setTop, hbottom, cilkAssert_eq]
    · -- the bottom is further down
      have hne : m.bottom pn ≠ some c := fun he => by
        rw [hbottom, List.getLast?_cons_cons] at he
        exact ((hl c).mp (List.mem_of_getLast? he)).2 rfl
      refine ⟨((m.setTop pn (some d)).setPrevReady d none).setOwnerReadyDeque debug c none, ?_,
        h.removed hl hc hlinks rfl rfl rfl⟩
      simp [htop, howner, hnext, setTop, hne, cilkAssert_eq]

/-- **`deque_xtract_bottom` takes the last closure.** -/
theorem xtractBottom (h : m.Represents debug Q) (hself : Q.holder pn = some self) :
    ∃ m', m.dequeXtractBottom debug self pn = some ((Q.queue pn).getLast?, m') ∧
      m'.Represents debug ((DequeCall.xtractBottom self pn).apply Q) := by
  have htop := h.top pn
  have hbottom := h.bottom pn
  show ∃ m' : ReadyDeques W, m.dequeXtractBottom debug self pn = some (_, m') ∧ m'.Represents debug
    { Q with queue := Function.update Q.queue pn (Q.queue pn).dropLast }
  unfold dequeXtractBottom
  rw [h.assertOwnership hself]
  rcases List.eq_nil_or_concat (Q.queue pn) with hq | ⟨l, c, hq⟩
  · rw [hq] at htop hbottom ⊢
    refine ⟨m, ?_, ?_⟩
    · simp [htop, hbottom, cilkAssert_eq]
    · rw [List.dropLast_nil, ← hq, Function.update_eq_self]
      exact h
  · rw [List.concat_eq_append] at hq
    have hc : c ∈ Q.queue pn := hq ▸ List.mem_append_right l (List.mem_singleton_self c)
    have hlinks := h.links.removeBottom hq
    have hprev : m.prevReady c = l.getLast? := h.links.above pn l [c] hq
    have hnd := h.links.nodup pn
    have howner : cilkAssert debug (m.ownerReadyDeque c == some pn) = some () :=
      cilkAssert_eq fun hd => beq_iff_eq.mpr
        ((h.ownerReadyDeque hd c (h.created pn c hc) pn).mpr hc)
    have hl : ∀ d, d ∈ l ↔ d ∈ Q.queue pn ∧ d ≠ c := by
      rw [hq, ← List.concat_eq_append, List.nodup_concat] at hnd
      intro d
      rw [hq, List.mem_append, List.mem_singleton]
      exact ⟨fun hd => ⟨.inl hd, fun he => hnd.1 (he ▸ hd)⟩, fun hd => hd.1.resolve_right hd.2⟩
    rw [hq, List.getLast?_concat] at hbottom
    rw [hq] at htop
    unfold LinkedDeques.removeBottom at hlinks
    rw [show m.links.prev c = l.getLast? from hprev] at hlinks
    rw [hq, List.dropLast_concat, List.getLast?_concat]
    rcases List.eq_nil_or_concat l with rfl | ⟨l', d, rfl⟩
    · refine ⟨((m.setBottom pn none).setTop pn none).setOwnerReadyDeque debug c none, ?_,
        h.removed hl hc hlinks rfl rfl rfl⟩
      simp [hbottom, howner, hprev, setBottom, htop, cilkAssert_eq]
    · -- the top is further up
      rw [List.concat_eq_append] at hprev hlinks hl htop ⊢
      rw [List.head?_append_of_ne_nil _ (List.append_ne_nil_of_right_ne_nil l'
        (List.cons_ne_nil d []))] at htop
      have hne : m.top pn ≠ some c := fun he =>
        ((hl c).mp (List.mem_of_head? (htop ▸ he))).2 rfl
      rw [List.getLast?_concat] at hprev hlinks
      refine ⟨((m.setBottom pn (some d)).setNextReady d none).setOwnerReadyDeque debug c none, ?_,
        h.removed hl hc hlinks rfl rfl rfl⟩
      simp [hbottom, howner, hprev, setBottom, hne, cilkAssert_eq]

/-- The debugging field of a closure that comes into a deque. -/
theorem added (h : m.Represents debug Q) (hcreated : Q.created cl) (hcl : ∀ v, cl ∉ Q.queue v)
    (hlinks : m'.links.Represents (Function.update Q.queue pn (Q.queue pn ++ [cl])))
    (hmutex : m'.mutex = m.mutex) (howner : m'.mutexOwner = m.mutexOwner)
    (hready : debug = true →
      m'.ownerReadyDeque = Function.update m.ownerReadyDeque cl (some pn)) :
    m'.Represents debug { Q with queue := Function.update Q.queue pn (Q.queue pn ++ [cl]) } := by
  have hmem : ∀ v c, c ∈ Function.update Q.queue pn (Q.queue pn ++ [cl]) v ↔
      c ∈ Q.queue v ∨ c = cl ∧ v = pn := by
    intro v c
    by_cases hv : v = pn
    · rw [hv, Function.update_self, List.mem_append, List.mem_singleton]
      exact or_congr_right (and_iff_left rfl).symm
    · rw [Function.update_of_ne hv]
      exact (or_iff_left fun hc => hv hc.2).symm
  constructor
  case links => exact hlinks
  case created =>
    intro v c hc
    rcases (hmem v c).mp hc with hc | hc
    · exact h.created v c hc
    · exact hc.1 ▸ hcreated
  case mutex => exact fun v => by rw [hmutex, h.mutex v]
  case mutexOwner => exact fun hd v => by rw [howner, h.mutexOwner hd v]
  case ownerReadyDeque =>
    intro hd c hc v
    rw [hready hd, hmem]
    by_cases hcc : c = cl
    · rw [hcc, Function.update_self, Option.some_inj]
      exact ⟨fun he => .inr ⟨rfl, he.symm⟩, fun hm => (hm.resolve_left (hcl v)).2.symm⟩
    · rw [Function.update_of_ne hcc, h.ownerReadyDeque hd c hc v]
      exact (or_iff_left fun hm => hcc hm.1).symm

/-- What `deque_add_bottom` does to the links, where no assertion fails. -/
theorem addBottom_eq (h : m.Represents debug Q) (hself : Q.holder pn = some self)
    (howner : cilkAssert debug (m.ownerReadyDeque cl == none) = some ()) :
    ∃ m', m.dequeAddBottom debug self cl pn = some m' ∧
      m'.links = m.links.addBottom pn cl ∧ m'.mutex = m.mutex ∧ m'.mutexOwner = m.mutexOwner ∧
      (debug = true → m'.ownerReadyDeque = Function.update m.ownerReadyDeque cl (some pn)) := by
  have htop := h.top pn
  have hbottom := h.bottom pn
  unfold dequeAddBottom LinkedDeques.addBottom
  rw [h.assertOwnership hself, howner, show m.links.bottom pn = m.bottom pn from rfl]
  rcases List.eq_nil_or_concat (Q.queue pn) with hq | ⟨l, d, hq⟩
  · rw [hq] at htop hbottom
    refine ⟨((((m.setPrevReady cl none).setNextReady cl none).setBottom pn
      (some cl)).setOwnerReadyDeque debug cl (some pn)).setTop pn (some cl), ?_, ?_⟩
    · cases debug <;>
        simp [htop, hbottom, setPrevReady, setNextReady, setBottom, setOwnerReadyDeque]
    · rw [hbottom]
      cases debug <;> exact ⟨rfl, rfl, rfl, fun hd => by first | rfl | cases hd⟩
  · rw [hq, List.concat_eq_append] at htop hbottom
    rw [List.getLast?_concat] at hbottom
    have hsome : (m.top pn).isSome = true := by
      rw [htop, List.isSome_head?]
      simp
    refine ⟨((((m.setPrevReady cl (some d)).setNextReady cl none).setBottom pn
      (some cl)).setOwnerReadyDeque debug cl (some pn)).setNextReady d (some cl), ?_, ?_⟩
    · cases debug <;>
        simp [hsome, hbottom, setPrevReady, setNextReady, setBottom, setOwnerReadyDeque,
          cilkAssert_eq]
    · rw [hbottom]
      cases debug <;> exact ⟨rfl, rfl, rfl, fun hd => by first | rfl | cases hd⟩

/-- **`deque_add_bottom` puts a closure behind the last.** -/
theorem addBottom (h : m.Represents debug Q) (hself : Q.holder pn = some self)
    (hcreated : Q.created cl) (hcl : ∀ v, cl ∉ Q.queue v) :
    ∃ m', m.dequeAddBottom debug self cl pn = some m' ∧
      m'.Represents debug ((DequeCall.addBottom self cl pn).apply Q) := by
  obtain ⟨m', hcode, hlinks, hmutex, howner, hready⟩ := h.addBottom_eq hself
    (cilkAssert_eq fun hd => beq_iff_eq.mpr (h.owner_eq_none hd hcreated hcl))
  refine ⟨m', hcode, h.added hcreated hcl ?_ hmutex howner hready⟩
  rw [hlinks]
  exact h.links.addBottom hcl

/-- **`Closure_init`**, of a closure that is in no deque. -/
theorem closureInit (h : m.Represents debug Q) (hcl : ∀ v, cl ∉ Q.queue v) :
    (m.closureInit debug cl).Represents debug ((DequeCall.closureInit cl).apply Q) := by
  have hstale := h.stale hcl none none
  unfold ReadyDeques.closureInit setOwnerReadyDeque
  constructor
  case links => split <;> exact hstale.links
  case created =>
    intro v c hc
    show Function.update Q.created cl True c
    by_cases hcc : c = cl
    · rw [hcc, Function.update_self]
      trivial
    · rw [Function.update_of_ne hcc]
      exact h.created v c hc
  case mutex => split <;> exact h.mutex
  case mutexOwner => split <;> exact h.mutexOwner
  case ownerReadyDeque =>
    intro hd c hc v
    rw [if_pos hd]
    show Function.update m.ownerReadyDeque cl none c = some v ↔ c ∈ Q.queue v
    by_cases hcc : c = cl
    · rw [hcc, Function.update_self]
      exact ⟨nofun, fun hm => absurd hm (hcl v)⟩
    · rw [Function.update_of_ne hcc]
      refine h.ownerReadyDeque hd c ?_ v
      rwa [show ((DequeCall.closureInit cl).apply Q).created = Function.update Q.created cl True
        from rfl, Function.update_of_ne hcc] at hc

theorem assertPromotable (h : m.Represents debug Q) (hself : Q.holder pn = some self)
    (hparent : (Q.queue pn).getLast? = some cl) :
    m.assertPromotable debug self cl pn = some () := by
  have hcl := List.mem_of_getLast? hparent
  have hnext : m.nextReady cl = none := by
    have hb := h.links.below pn (Q.queue pn) [] (List.append_nil _).symm
    rwa [hparent] at hb
  unfold ReadyDeques.assertPromotable
  rw [h.assertOwnership hself, hnext, cilkAssert_eq (b := m.ownerReadyDeque cl == some pn)
    fun hd => beq_iff_eq.mpr ((h.ownerReadyDeque hd cl (h.created pn cl hcl) pn).mpr hcl)]
  exact cilkAssert_eq fun _ => rfl

/-- **Each call acts on the links as on the sequences**, if it is allowed. -/
theorem exec (h : m.Represents debug Q) (c : DequeCall W) (hc : c.Allowed Q) :
    ∃ m', c.exec debug m = some (c.answer Q, m') ∧ m'.Represents debug (c.apply Q) := by
  cases c with
  | lock self pn =>
    obtain ⟨m', hm', hr⟩ := h.lock hc
    exact ⟨m', congrArg (Option.map (none, ·)) hm', hr⟩
  | unlock self pn => exact ⟨_, rfl, h.unlock⟩
  | peekTop self pn => exact ⟨m, congrArg (Option.map (·, m)) (h.peekTop hc), h⟩
  | xtractTop self pn => exact h.xtractTop hc
  | peekBottom self pn => exact ⟨m, congrArg (Option.map (·, m)) (h.peekBottom hc), h⟩
  | xtractBottom self pn => exact h.xtractBottom hc
  | addBottom self cl pn =>
    obtain ⟨hself, hcreated, hcl⟩ := hc
    obtain ⟨m', hm', hr⟩ := h.addBottom hself hcreated hcl
    exact ⟨m', congrArg (Option.map (none, ·)) hm', hr⟩
  | closureInit cl => exact ⟨_, rfl, h.closureInit hc⟩
  | assertPromotable self parent victim =>
    exact ⟨m, congrArg (Option.map fun _ => (none, m)) (h.assertPromotable hc.1 hc.2), h⟩

/-- **Every run of allowed calls is a run on the sequences.** -/
theorem run {cs : List (DequeCall W × Option ClosureId)} {Q' : ReadyQueues W}
    (hrun : Q.Run cs Q') : ∀ {m : ReadyDeques W}, m.Represents debug Q →
      ∃ m', ReadyDeques.run debug (cs.map Prod.fst) m = some (cs.map Prod.snd, m') ∧
        m'.Represents debug Q' := by
  induction hrun with
  | nil Q => exact fun {m} h => ⟨m, rfl, h⟩
  | cons hc _ ih =>
    intro m h
    obtain ⟨m₁, hexec, h₁⟩ := h.exec _ hc
    obtain ⟨m₂, hrest, h₂⟩ := ih h₁
    refine ⟨m₂, ?_, h₂⟩
    rw [List.map_cons, ReadyDeques.run, hexec, Option.bind_eq_bind, Option.bind_some]
    show (ReadyDeques.run debug _ m₁).bind _ = _
    rw [hrest]
    rfl

end Represents

end ReadyDeques

end Cilk
