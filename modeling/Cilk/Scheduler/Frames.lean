import Cilk.Scheduler.Aborts

/-!
# The frames of the scheduler

Slot `head` of a worker's frame stack is the frame of the closure that runs at
the bottom of its deque, which is what slow code and the exception handler
take for granted when they pass from the one to the other. The frame of
`invoke_main` came from `malloc` and is in slot 0 only, so what the last step
of `invoke_main` frees is the closure the computation was started with.
-/

namespace Cilk

variable {W : Type}

/-- The slot above the activations in use has been stored: the frame that
was popped, or the one to be pushed. -/
def Control.stored (p : Control W) : Prop :=
  (p.role : Role W) = .popping ∨ p = .pushFrame

namespace State

/-- Where the frame of `invoke_main` can be on a stack. -/
structure Stacked (σ : State W) : Prop where
  pos : 0 < σ.nextFrame
  slot : ∀ w i, 1 ≤ i → i < fieldOf σ.cache ClosureCache.tail w →
    fieldOf σ.cache ClosureCache.stack w i ≠ rootFrame
  stored : ∀ w, (σ.control w).stored →
    fieldOf σ.cache ClosureCache.stack w (fieldOf σ.cache ClosureCache.tail w) ≠ rootFrame
  removing : ∀ w, σ.control w = .remove → fieldOf σ.cache ClosureCache.stack w 0 = rootFrame

/-- The frames of the closures. -/
structure Framed (σ : State W) : Prop where
  root : ∀ c, fieldOf σ.closure Closure.frame c = .some rootFrame → c = rootClosure
  some : ∀ c, fieldOf σ.closure Closure.status c ≠ .returning →
    fieldOf σ.closure Closure.frame c ≠ none
  starting : ∀ w t, ((σ.control w).role : Role W) = .starting t →
    fieldOf σ.closure Closure.frame t = .some (fieldOf σ.cache ClosureCache.stack w 0)
  runs : ∀ w b, σ.place.Runs w b → fieldOf σ.closure Closure.frame b =
    .some (fieldOf σ.cache ClosureCache.stack w (fieldOf σ.cache ClosureCache.head w))

variable [DecidableEq W] {cfg : Config} {w : W} {σ σ' : State W}

/-! ## What the helpers leave of the caches -/

section Caches

variable {c : ClosureId} {g : ClosureCache → ClosureCache} {a : AbortStatus} {args : Bytes}

/-- A field that the update keeps, in every cache. -/
theorem fieldOf_modifyCacheOf {α : Type*} (φ : ClosureCache → α) (hg : ∀ k, φ (g k) = φ k) :
    fieldOf (σ.modifyCacheOf c g).cache φ = fieldOf σ.cache φ := by
  unfold modifyCacheOf
  dsimp only
  split
  case h_1 v _ => rw [fieldOf_update, hg, Function.update_eq_self_iff, fieldOf]
  case h_2 => rfl

/-- The heads, where the update keeps them. -/
@[simp] theorem head_modifyCacheOf (hg : ∀ k, (g k).head = k.head) :
    fieldOf (σ.modifyCacheOf c g).cache ClosureCache.head = fieldOf σ.cache ClosureCache.head :=
  fieldOf_modifyCacheOf _ hg

/-- The tails, where the update keeps them. -/
@[simp] theorem tail_modifyCacheOf (hg : ∀ k, (g k).tail = k.tail) :
    fieldOf (σ.modifyCacheOf c g).cache ClosureCache.tail = fieldOf σ.cache ClosureCache.tail :=
  fieldOf_modifyCacheOf _ hg

/-- The stacks, where the update keeps them. -/
@[simp] theorem stack_modifyCacheOf (hg : ∀ k, (g k).stack = k.stack) :
    fieldOf (σ.modifyCacheOf c g).cache ClosureCache.stack =
      fieldOf σ.cache ClosureCache.stack :=
  fieldOf_modifyCacheOf _ hg

/-- Abort raises exception pointers only. -/
theorem fieldOf_signalAbortHere {α : Type*} (φ : ClosureCache → α)
    (hφ : ∀ k : ClosureCache, φ { k with exception := .infinity } = φ k) :
    fieldOf (σ.signalAbortHere c a).cache φ = fieldOf σ.cache φ := by
  unfold signalAbortHere
  split
  · exact fieldOf_modifyCacheOf φ hφ
  · rfl

/-- Abort keeps the heads. -/
@[simp] theorem head_signalAbortHere : fieldOf (σ.signalAbortHere c a).cache ClosureCache.head =
    fieldOf σ.cache ClosureCache.head :=
  fieldOf_signalAbortHere _ fun _ => rfl

/-- Abort keeps the tails. -/
@[simp] theorem tail_signalAbortHere : fieldOf (σ.signalAbortHere c a).cache ClosureCache.tail =
    fieldOf σ.cache ClosureCache.tail :=
  fieldOf_signalAbortHere _ fun _ => rfl

/-- Abort keeps the stacks. -/
@[simp] theorem stack_signalAbortHere :
    fieldOf (σ.signalAbortHere c a).cache ClosureCache.stack =
      fieldOf σ.cache ClosureCache.stack :=
  fieldOf_signalAbortHere _ fun _ => rfl

/-- Abort creates no frame. -/
@[simp] theorem nextFrame_signalAbortHere : (σ.signalAbortHere c a).nextFrame = σ.nextFrame := by
  unfold signalAbortHere
  split <;> rfl

/-- Abort does not end the computation. -/
@[simp] theorem done_signalAbortHere : (σ.signalAbortHere c a).done = σ.done := by
  unfold signalAbortHere
  split <;> rfl

/-- Detaching moves a head, not a tail. -/
@[simp] theorem tail_detachFromInlet :
    fieldOf (σ.detachFromInlet cfg w c args).cache ClosureCache.tail =
      fieldOf σ.cache ClosureCache.tail := by
  unfold detachFromInlet
  split
  · simp
  · rfl

/-- The frame detached stays in its slot. -/
@[simp] theorem stack_detachFromInlet :
    fieldOf (σ.detachFromInlet cfg w c args).cache ClosureCache.stack =
      fieldOf σ.cache ClosureCache.stack := by
  unfold detachFromInlet
  split
  · simp
  · rfl

/-- Detaching creates a closure and no frame. -/
@[simp] theorem nextFrame_detachFromInlet :
    (σ.detachFromInlet cfg w c args).nextFrame = σ.nextFrame := by
  unfold detachFromInlet
  split <;> rfl

/-- Detaching does not end the computation. -/
@[simp] theorem done_detachFromInlet : (σ.detachFromInlet cfg w c args).done = σ.done := by
  unfold detachFromInlet
  split <;> rfl

end Caches

omit [DecidableEq W] in
/-- An aborting inlet detaches a frame that is in use. -/
theorem tail_of_detach {k : PollCaller} {i : InletClosure} {rest : List InletClosure}
    (hsound : σ.Sound) (hc : σ.control w = .poll k)
    (hnext : (σ.closure k.closure).completeInlets = i :: rest)
    (hrun : fieldOf σ.closure Closure.status k.closure = .running)
    (htop : σ.atTopOfStack k.closure = false) :
    fieldOf σ.cache ClosureCache.head w + 1 < fieldOf σ.cache ClosureCache.tail w := by
  obtain ⟨hk, hruns⟩ := Placed.handler_of_running hsound hc hrun htop
  have hown := hsound.placed.own w
  rw [show σ.place.role w = .handling k.closure from (congrArg Control.role hc).trans hk] at hown
  -- a fast closure has no inlet to poll
  have hhead : σ.place.head w = 0 := by
    by_contra hne
    have hfast := hsound.placed.fast w k.closure hruns.1 hruns.2.1 (Nat.pos_of_ne_zero hne)
    have hidle := Closure.idle_iff.mp (show (σ.closure k.closure).idle = true from hfast.1)
    rw [hidle.2.2] at hnext
    cases hnext
  have htop : σ.place.head w + 1 ≠ σ.place.tail w := by
    have hcache : fieldOf σ.closure Closure.cache k.closure = some w := hruns.2.2
    simpa [atTopOfStack, hcache, place] using htop
  have htail : 1 ≤ σ.place.tail w := hown.2.1
  show σ.place.head w + 1 < σ.place.tail w
  omega

namespace Stacked

/-- A step of worker `w`, whose stack is `s` with `n` activations from then
on. -/
theorem update {q : Control W} {s : ℕ → FrameId} {n : ℕ} (h : σ.Stacked)
    (hnext : σ.nextFrame ≤ σ'.nextFrame)
    (hstack : fieldOf σ'.cache ClosureCache.stack =
      Function.update (fieldOf σ.cache ClosureCache.stack) w s)
    (htail : fieldOf σ'.cache ClosureCache.tail =
      Function.update (fieldOf σ.cache ClosureCache.tail) w n)
    (hcontrol : σ'.control = Function.update σ.control w q)
    (hslot : ∀ i, 1 ≤ i → i < n → s i ≠ rootFrame) (hstored : q.stored → s n ≠ rootFrame)
    (hremove : q = .remove → s 0 = rootFrame) : σ'.Stacked where
  pos := h.pos.trans_le hnext
  slot := by
    rw [hstack, htail]
    intro u
    by_cases hu : u = w
    · rw [hu, Function.update_self, Function.update_self]
      exact hslot
    · rw [Function.update_of_ne hu, Function.update_of_ne hu]
      exact h.slot u
  stored := by
    rw [hstack, htail, hcontrol]
    intro u
    by_cases hu : u = w
    · rw [hu, Function.update_self, Function.update_self, Function.update_self]
      exact hstored
    · rw [Function.update_of_ne hu, Function.update_of_ne hu, Function.update_of_ne hu]
      exact h.stored u
  removing := by
    rw [hstack, hcontrol]
    intro u
    by_cases hu : u = w
    · rw [hu, Function.update_self, Function.update_self]
      exact hremove
    · rw [Function.update_of_ne hu, Function.update_of_ne hu]
      exact h.removing u

/-- A step that leaves the stacks alone. -/
theorem keep {q : Control W} (h : σ.Stacked) (hnext : σ.nextFrame ≤ σ'.nextFrame)
    (hstack : fieldOf σ'.cache ClosureCache.stack = fieldOf σ.cache ClosureCache.stack)
    (htail : fieldOf σ'.cache ClosureCache.tail = fieldOf σ.cache ClosureCache.tail)
    (hcontrol : σ'.control = Function.update σ.control w q)
    (hstored : q.stored → (σ.control w).stored) (hremove : q = .remove → σ.control w = .remove) :
    σ'.Stacked :=
  h.update hnext (hstack.trans (Function.update_eq_self ..).symm)
    (htail.trans (Function.update_eq_self ..).symm) hcontrol (h.slot w)
    (fun hq => h.stored w (hstored hq)) (fun hq => h.removing w (hremove hq))

/-- **The stacks keep the frame of `invoke_main` in slot 0**, in every
transition. A push stores a frame that is new, and the slots that come into use
were stored before. -/
theorem transition (h : σ.Stacked) (ht : Transition cfg w σ σ') : σ'.Stacked := by
  cases ht
  case setup t hc _ _ _ =>
    refine h.update (w := w) le_rfl (by simp; rfl) (by simp; rfl) (by simp; rfl) ?_ ?_ ?_
    · intro i hi hlt
      exact absurd hlt (Nat.not_lt.mpr hi)
    all_goals simp [Control.stored, Control.role, PollCaller.role]
  case spawn hc _ =>
    refine h.update (w := w) (n := fieldOf σ.cache ClosureCache.tail w) (Nat.le_succ _)
      (by simp; rfl) (by simp) (by simp; rfl) ?_ ?_ ?_
    · intro i hi hlt
      rw [Function.update_of_ne hlt.ne]
      exact h.slot w i hi hlt
    · intro _
      rw [Function.update_self]
      exact h.pos.ne'
    · intro hq
      cases hq
  case push hc =>
    refine h.update (w := w) (s := fieldOf σ.cache ClosureCache.stack w) le_rfl (by simp)
      (by simp; rfl) (by simp; rfl) ?_ ?_ ?_
    · intro i hi hlt
      rcases (Nat.lt_succ_iff_lt_or_eq.mp hlt) with hlt | rfl
      · exact h.slot w i hi hlt
      · exact h.stored w (.inr hc)
    all_goals simp [Control.stored, Control.role]
  case returnFast r hc hdepth | unwind r hc hdepth =>
    have hdepth : 2 ≤ fieldOf σ.cache ClosureCache.tail w := hdepth
    refine h.update (w := w) (s := fieldOf σ.cache ClosureCache.stack w) le_rfl (by simp)
      (by simp; rfl) (by simp; rfl) ?_ ?_ ?_
    · intro i hi hlt
      exact h.slot w i hi (by omega)
    · intro _
      exact h.slot w _ (by omega) (by omega)
    · intro hq
      cases hq
  case unwindLast hc _ | slowReturn hc =>
    refine h.update (w := w) (s := fieldOf σ.cache ClosureCache.stack w) le_rfl (by simp)
      (by simp; rfl) (by simp; rfl) ?_ ?_ ?_
    · intro i hi hlt
      exact h.slot w i hi (by omega)
    all_goals simp [Control.stored, Control.role]
  case finish hc hdepth hroot _ =>
    refine h.update (w := w) le_rfl (Function.update_eq_self ..).symm
      (Function.update_eq_self ..).symm rfl (h.slot w) ?_ ?_
    · simp [Control.stored, Control.role]
    · intro _
      unfold topFrame at hroot
      rw [hdepth] at hroot
      exact hroot
  case stealNone => exact h
  case leave =>
    refine h.keep (w := w) le_rfl rfl rfl rfl ?_ ?_
    all_goals simp [Control.stored, Control.role]
  case walkDone i _ =>
    cases i
    all_goals
      refine h.keep (w := w) le_rfl rfl rfl rfl ?_ ?_
      all_goals simp [Control.stored, Control.role, PollCaller.role, *]
  case pollHandler hσ' | handlerRelock hσ' =>
    cases hσ'
    all_goals
      refine h.keep (w := w) (by simp) (by simp [-modifyCacheOf_cache])
        (by simp [-modifyCacheOf_cache]) (by simp; rfl) ?_ ?_
      all_goals simp [Control.stored, Control.role, PollCaller.role, *]
  case returnRunning hσ' _ | returnPoll hσ' _ =>
    cases hσ'
    all_goals
      refine h.keep (w := w) (by simp) (by simp [-modifyCacheOf_cache])
        (by simp [-modifyCacheOf_cache]) (by simp; rfl) ?_ ?_
      all_goals simp [Control.stored, Control.role, PollCaller.role, *]
  all_goals
    refine h.keep (w := w) (by simp) (by simp [-modifyCacheOf_cache])
      (by simp [-modifyCacheOf_cache]) (by simp; rfl) ?_ ?_
    all_goals simp [Control.stored, Control.role, PollCaller.role, *]

/-- At the start no slot is in use. -/
theorem init (w₀ : W) : (State.init cfg w₀).Stacked where
  pos := Nat.one_pos
  slot _ i hi hlt := absurd hlt (Nat.not_lt_zero i)
  stored w hw := by
    rw [show (State.init cfg w₀).control w = if w = w₀ then _ else _ from rfl] at hw
    split at hw <;> simp [Control.stored, Control.role] at hw
  removing _ _ := rfl

/-- The stacks of every reachable state. -/
theorem reachable {w₀ : W} (h : (scheduler cfg w₀).Reachable σ) : σ.Stacked :=
  h.invariant (init w₀) fun _ _ _ _ h hst => h.transition (transition_of_step hst)

omit [DecidableEq W] in
/-- The frame an aborting inlet detaches is not that of `invoke_main`. -/
theorem slot_of_detach {k : PollCaller} {i : InletClosure} {rest : List InletClosure}
    (h : σ.Stacked) (hsound : σ.Sound) (hc : σ.control w = .poll k)
    (hnext : (σ.closure k.closure).completeInlets = i :: rest)
    (hrun : fieldOf σ.closure Closure.status k.closure = .running)
    (htop : σ.atTopOfStack k.closure = false) :
    fieldOf σ.cache ClosureCache.stack w (fieldOf σ.cache ClosureCache.head w + 1) ≠
      rootFrame :=
  h.slot w _ (Nat.succ_pos _) (tail_of_detach hsound hc hnext hrun htop)

end Stacked

namespace Framed

/-- A step that changes no frame of a closure, no stack and no head. No closure
begins to run, or leaves the state of returning. -/
theorem keep {q : Control W} (h : σ.Framed)
    (hframe : fieldOf σ'.closure Closure.frame = fieldOf σ.closure Closure.frame)
    (hstack : fieldOf σ'.cache ClosureCache.stack = fieldOf σ.cache ClosureCache.stack)
    (hhead : fieldOf σ'.cache ClosureCache.head = fieldOf σ.cache ClosureCache.head)
    (hcontrol : σ'.control = Function.update σ.control w q)
    (hstatus : ∀ c, fieldOf σ'.closure Closure.status c ≠ .returning →
      fieldOf σ.closure Closure.status c ≠ .returning)
    (hstarting : ∀ t, (q.role : Role W) = .starting t →
      ((σ.control w).role : Role W) = .starting t)
    (hruns : ∀ u b, σ'.place.Runs u b → σ.place.Runs u b) : σ'.Framed where
  root := hframe ▸ h.root
  some c hc := hframe ▸ h.some c (hstatus c hc)
  starting := by
    rw [hframe, hstack, hcontrol]
    intro u t hu
    rw [Function.update_apply] at hu
    split at hu
    case isTrue he => exact h.starting u t (he ▸ hstarting t hu)
    case isFalse => exact h.starting u t hu
  runs := by
    rw [hframe, hstack, hhead]
    exact fun u b hb => h.runs u b (hruns u b hb)

/-- A step that detaches the frame above the head of `v` for a new child. -/
theorem create {q : Control W} {v : W} (h : σ.Framed) (hn : σ.Named)
    (hslot : fieldOf σ.cache ClosureCache.stack v (fieldOf σ.cache ClosureCache.head v + 1) ≠
      rootFrame)
    (hframe : fieldOf σ'.closure Closure.frame = Function.update (fieldOf σ.closure Closure.frame)
      σ.nextClosure (.some (fieldOf σ.cache ClosureCache.stack v
        (fieldOf σ.cache ClosureCache.head v + 1))))
    (hstack : fieldOf σ'.cache ClosureCache.stack = fieldOf σ.cache ClosureCache.stack)
    (hhead : fieldOf σ'.cache ClosureCache.head = Function.update (fieldOf σ.cache
      ClosureCache.head) v (fieldOf σ.cache ClosureCache.head v + 1))
    (hcontrol : σ'.control = Function.update σ.control w q)
    (hstatus : ∀ c, c ≠ σ.nextClosure → fieldOf σ'.closure Closure.status c ≠ .returning →
      fieldOf σ.closure Closure.status c ≠ .returning)
    (hstarting : ∀ t, (q.role : Role W) ≠ .starting t)
    (hbottom : σ'.place.bottom v = .some σ.nextClosure)
    (hruns : ∀ u b, u ≠ v → σ'.place.Runs u b → σ.place.Runs u b) : σ'.Framed where
  root c := by
    rw [hframe]
    by_cases hc : c = σ.nextClosure
    · rw [hc, Function.update_self]
      exact fun he => absurd (Option.some.inj he) hslot
    · rw [Function.update_of_ne hc]
      exact h.root c
  some c := by
    rw [hframe]
    by_cases hc : c = σ.nextClosure
    · rw [hc, Function.update_self]
      exact fun _ => Option.some_ne_none _
    · rw [Function.update_of_ne hc]
      exact fun hs => h.some c (hstatus c hc hs)
  starting := by
    rw [hframe, hstack, hcontrol]
    intro u t hu
    by_cases huw : u = w
    · rw [huw, Function.update_self] at hu
      exact absurd hu (hstarting t)
    · rw [Function.update_of_ne huw] at hu
      have ht : t < σ.nextClosure := by
        refine hn.control u t ?_
        rcases Control.of_role_starting hu with ⟨k, hk, rfl⟩ | hu
        · exact Control.closure_mem_closures hk
        · simp [hu, Control.closures]
      rw [Function.update_of_ne ht.ne]
      exact h.starting u t hu
  runs := by
    rw [hframe, hstack, hhead]
    intro u b hb
    by_cases huv : u = v
    · subst huv
      cases Option.some.inj (hb.1.symm.trans hbottom)
      rw [Function.update_self, Function.update_self]
    · have hb := hruns u b huv hb
      have hlt : b < σ.nextClosure := hn.deque u b (List.mem_of_getLast? hb.1)
      rw [Function.update_of_ne hlt.ne, Function.update_of_ne huv]
      exact h.runs u b hb

/-- The exception handler suspends what runs, and changes no frame. -/
theorem handled {t : ClosureId} {g : FrameId} {r : Bytes} (h : σ.Framed) (hv : σ.place.Valid)
    (hb : σ.place.bottom w = .some t)
    (hbot : ∃ b, σ.place.Runs w b ∧ σ.place.head w ≤ σ.place.tail w ∨
      σ.place.Returned w b ∧ σ.place.tail w ≤ σ.place.head w)
    (hσ' : Handled w t g r (σ.resetExceptionPointer t) σ') : σ'.Framed := by
  cases hσ'
  case suspended hstolen _ _ _ =>
    rw [head_resetExceptionPointer, tail_resetExceptionPointer] at hstolen
    have hrun : fieldOf σ.closure Closure.status t = .running := by
      obtain ⟨b, ⟨⟨hb', hrun, -⟩, -⟩ | ⟨-, hle⟩⟩ := hbot
      · cases Option.some.inj (hb.symm.trans hb')
        exact hrun
      · exact absurd hstolen (Nat.not_lt.mpr hle)
    refine h.keep (w := w) (by simp) (by simp [-modifyCacheOf_cache])
      (by simp [-modifyCacheOf_cache]) (by simp; rfl) ?_ ?_ ?_
    · simp
      grind
    · simp [Control.role]
    · have hready : ∀ c, (fieldOf σ.deque ReadyDeque.closures w).dropLast.getLast? = .some c →
          fieldOf σ.closure Closure.status c = .ready := fun c hc =>
        hv.dropLast_ready hb (List.mem_of_getLast? hc)
      simp [Placement.Runs, Placement.bottom, place]
      grind
  all_goals
    refine h.keep (w := w) (by simp) (by simp [-modifyCacheOf_cache])
      (by simp [-modifyCacheOf_cache]) (by simp; rfl) ?_ ?_ ?_
    · simp; try grind
    · simp [Control.role]
    · simp [Placement.Runs, Placement.bottom, place]; try grind

/-- A closure whose status changes was not returning before. -/
theorem ne_returning_of_update {f : ClosureId → ClosureStatus} {t : ClosureId}
    {s : ClosureStatus} (ht : f t ≠ .returning) (c : ClosureId)
    (hc : Function.update f t s c ≠ .returning) : f c ≠ .returning := by
  by_cases hct : c = t
  · exact hct ▸ ht
  · rwa [Function.update_of_ne hct] at hc

/-! ### Stealing -/

/-- A steal detaches the frame above the head of the victim, which is in use
or was just popped. -/
theorem stealPromote {v : W} {cl : ClosureId} (h : σ.Framed) (hs : σ.Stacked) (hsound : σ.Sound)
    (hc : σ.control w = .promote v cl) : (σ.stealPromote cfg w v cl).Framed := by
  have hn := hsound.named
  have hv := hsound.placed
  have hrole : σ.place.role w = .promoting v cl := congrArg Control.role hc
  obtain ⟨-, hdeque, -⟩ := hv.raised w v cl (by rw [hrole]; rfl)
  have hpr := hv.promoting w v cl hrole
  simp only [place] at hdeque hpr
  refine h.create (w := w) (v := v) hn ?_ (by simp) (by simp) (by simp) (by simp; rfl) ?_ ?_ ?_ ?_
  · rcases hpr.1.lt_or_eq with hlt | heq
    · exact hs.slot v _ (Nat.succ_pos _) hlt
    · rw [heq]
      exact hs.stored v (.inl (hpr.2 heq.symm))
  · simp +contextual
  · simp [Control.role]
  · simp [Placement.bottom, place, hdeque]
  · intro u b hu
    simp [Placement.Runs, Placement.bottom, place, hu]
    grind [hn.deque u b, List.mem_of_getLast?]

/-- The stolen parent runs until the steal is finished. -/
theorem stealFinish {p c : ClosureId} {args : Bytes} (h : σ.Framed) (hv : σ.place.Valid)
    (hc : σ.control w = .finishPromote p c) : (σ.stealFinish cfg w p c args).Framed := by
  have hown := hv.own w
  rw [show σ.place.role w = .detached p c from congrArg Control.role hc] at hown
  have hrun : fieldOf σ.closure Closure.status p = .running := hown.2
  refine h.keep (w := w) (by simp) (by simp) (by simp) (by simp; rfl) ?_ ?_ ?_
  · simpa using ne_returning_of_update (by simp [hrun])
  · simp [Control.role]
  · simp [Placement.Runs, Placement.bottom, place]
    grind

/-! ### `do_what_it_says` -/

/-- The frame of a closure that is set up goes to slot 0 of the worker's
stack. The worker has no closure that runs in its deque. -/
theorem setup {t : ClosureId} (h : σ.Framed) (hv : σ.place.Valid) (hc : σ.control w = .execute t)
    (hstatus : (σ.closure t).status = .ready) :
    (((σ.lockClosure w t).setupForExecution w t).goto w (.poll (.setup t))).Framed := by
  simp only [status_closure] at hstatus
  have hrole : σ.place.role w = .executing t := congrArg Control.role hc
  have hown := hv.own w
  have hmem := hv.token_not_mem (w := w) (c := t) (by rw [hrole]; rfl)
  rw [hrole] at hown
  obtain ⟨f, hf⟩ := Option.ne_none_iff_exists'.mp (h.some t (by simp [hstatus]))
  refine ⟨by simpa using h.root, ?_, ?_, ?_⟩
  · simp
    grind [h.some]
  · intro u c
    by_cases hu : u = w
    · simp [hu, Control.role, PollCaller.role, frameOf]
      rintro rfl
      rw [hf]
      rfl
    · simpa [hu] using h.starting u c
  · intro u b hb
    simp [Placement.Runs, Placement.bottom, place] at hb
    by_cases hbt : b = t
    · exact absurd (List.mem_of_getLast? hb.1) (hbt ▸ hmem u)
    · simp [hbt] at hb ⊢
      by_cases hu : u = w
      · subst hu
        have hready : fieldOf σ.closure Closure.status b = .ready := hown.1 b hb.1
        rw [hb.2.1] at hready
        cases hready
      · simpa [hu] using h.runs u b hb

/-- The closure that was set up starts to run, at the bottom of the deque. -/
theorem insert {t : ClosureId} (h : σ.Framed) (hv : σ.place.Valid)
    (hc : σ.control w = .insert t) : ((σ.dequeAddBottom w t).goto w .user).Framed := by
  have hstart := h.starting w t (congrArg Control.role hc)
  have hown := hv.own w
  rw [show σ.place.role w = .starting t from congrArg Control.role hc] at hown
  obtain ⟨-, -, -, hhead, -⟩ := hown
  simp only [place] at hhead
  refine ⟨by simpa using h.root, by simpa using h.some, ?_, ?_⟩
  · intro u c
    by_cases hu : u = w
    · simp [hu, Control.role]
    · simpa [hu] using h.starting u c
  · intro u b hb
    simp [Placement.Runs, Placement.bottom, place] at hb ⊢
    by_cases hu : u = w
    · subst hu
      simp at hb
      rw [← hb.1, hhead]
      exact hstart
    · rw [Function.update_of_ne hu] at hb
      exact h.runs u b hb

/-! ### Inlets and the exception handler -/

/-- An inlet that aborts detaches a frame where the closure runs with frames
below the top of its stack, and changes no frame anywhere else. -/
theorem inletAbort {k : PollCaller} {i : InletClosure} {rest : List InletClosure} {args : Bytes}
    (h : σ.Framed) (hs : σ.Stacked) (hsound : σ.Sound) (hc : σ.control w = .poll k)
    (hnext : (σ.closure k.closure).completeInlets = i :: rest) :
    ((((σ.setComplete k.closure rest).runInlet cfg w k.closure i).detachFromInlet cfg w k.closure
      args).startAbort w k (Option.some i)).Framed := by
  have hn := hsound.named
  by_cases hdetach : σ.isRunning k.closure && !σ.atTopOfStack k.closure
  · have hlt : k.closure < σ.nextClosure := hn.control w _ (by rw [hc]; exact k.closure_mem)
    unfold detachFromInlet
    rw [if_pos (by simpa [isRunning, atTopOfStack] using hdetach)]
    rw [Bool.and_eq_true, Bool.not_eq_true'] at hdetach
    have hrun : fieldOf σ.closure Closure.status k.closure = .running := by
      simpa [isRunning] using hdetach.1
    have hslot := hs.slot_of_detach hsound hc hnext hrun hdetach.2
    obtain ⟨hk, hb, -⟩ := Placed.handler_of_running hsound hc hrun hdetach.2
    simp only [place, Placement.bottom] at hb
    refine h.create (w := w) (v := w) hn hslot (by simp) (by simp) (by simp) (by simp; rfl)
      ?_ ?_ ?_ ?_
    · simp
      grind
    · simp [Control.role, hk]
    · simp [Placement.bottom, place]
    · intro u b hu
      simp [Placement.Runs, Placement.bottom, place, hu]
      grind [hn.deque u b, List.mem_of_getLast?]
  · have hτ : ((σ.setComplete k.closure rest).runInlet cfg w k.closure i).detachFromInlet cfg w
        k.closure args = (σ.setComplete k.closure rest).runInlet cfg w k.closure i := by
      unfold detachFromInlet
      rw [if_neg]
      simpa [isRunning, atTopOfStack] using hdetach
    rw [hτ]
    refine h.keep (w := w) (by simp) (by simp) (by simp) (by simp; rfl) ?_ ?_ ?_
    · simp
    · simp [Control.role, hc]
    · simp [Placement.Runs, Placement.bottom, place]

/-- The exception handler, at the end of its poll. -/
theorem pollHandler {t : ClosureId} {g : FrameId} {r : Bytes} (h : σ.Framed) (hv : σ.place.Valid)
    (hc : σ.control w = .poll (.handler t g r)) (hb : (σ.deque w).closures.getLast? = .some t)
    (hσ' : Handled w t g r ((σ.pollDone t).resetExceptionPointer t) σ') : σ'.Framed := by
  have hown := hv.own w
  rw [show σ.place.role w = .handling t from congrArg Control.role hc] at hown
  have hτ : (σ.pollDone t).Framed := by
    refine h.keep (w := w) (q := σ.control w) (by simp) rfl rfl (by simp) ?_ (fun _ => id) ?_
    · simp
    · simp [Placement.Runs, Placement.bottom, place]
  have hplace : (σ.pollDone t).place = σ.place := by apply Placement.ext <;> simp [place]
  exact hτ.handled (w := w) (hplace ▸ hv) (hplace ▸ hb) (hplace ▸ hown.2.2) hσ'

/-- The exception handler, with the lock of another closure. -/
theorem handlerRelock {t : ClosureId} {g : FrameId} {r : Bytes} (h : σ.Framed)
    (hv : σ.place.Valid) (hc : σ.control w = .handlerRelock t g r)
    (hσ' : Handled w t g r ((σ.lockClosure w t).resetExceptionPointer t) σ') : σ'.Framed := by
  have hown := hv.own w
  rw [show σ.place.role w = .trapped t from congrArg Control.role hc] at hown
  have hτ : (σ.lockClosure w t).Framed := by
    refine h.keep (w := w) (q := σ.control w) (by simp) rfl rfl (by simp) ?_ (fun _ => id) ?_
    · simp
    · simp [Placement.Runs, Placement.bottom, place]
  have hplace : (σ.lockClosure w t).place = σ.place := by apply Placement.ext <;> simp [place]
  exact hτ.handled (w := w) (hplace ▸ hv) (hplace ▸ hown.2.elim (·.1.1) (·.1.1))
    (hplace ▸ ⟨t, hown.2⟩) hσ'

/-- A slow sync that waits leaves ready closures only in the deque. -/
theorem pollSuspend {t : ClosureId} (h : σ.Framed) (hv : σ.place.Valid)
    (hc : σ.control w = .poll (.sync t)) :
    ((((((σ.pollDone t).maybeResetAbort t).closureSuspend w t).unlockClosure t).unlockDeque
      w).goto w .fetch).Framed := by
  have hown := hv.own w
  rw [show σ.place.role w = .slow t from congrArg Control.role hc] at hown
  obtain ⟨⟨hb, hrun, -⟩, -⟩ := hown
  simp only [place, Placement.bottom] at hb hrun
  have hbottom : ∀ b, (fieldOf σ.deque ReadyDeque.closures w).dropLast.getLast? = .some b →
      fieldOf σ.closure Closure.status b = .ready := fun b hb' =>
    hv.dropLast_ready hb (List.mem_of_getLast? hb')
  refine h.keep (w := w) (by simp) (by simp) (by simp) (by simp; rfl) ?_ ?_ ?_
  · simpa using ne_returning_of_update (by simp [hrun])
  · simp [Control.role]
  · simp [Placement.Runs, Placement.bottom, place]
    grind

/-! ### Returning, and user code -/

/-- The parent that a provably good steal wakes up was suspended. -/
theorem pollWake {c p : ClosureId} (h : σ.Framed) (hv : σ.place.Valid)
    (hc : σ.control w = .poll (.provablyGood c p)) :
    ((((σ.pollDone p).makeReady p).emit (.provablyGood p)).returnEnd cfg w c p
      (.execute p)).Framed := by
  have hsusp : fieldOf σ.closure Closure.status p = .suspended :=
    hv.waking w c p (congrArg Control.role hc)
  refine h.keep (w := w) (by simp) (by simp) (by simp) (by simp; rfl) ?_ ?_ ?_
  · simpa using ne_returning_of_update (by simp [hsusp])
  · simp [Control.role]
  · simp [Placement.Runs, Placement.bottom, place]
    grind

/-- The frame of a spawn is stored above the activations in use, so not in
the slot of the closure that runs. -/
theorem storeFrame {sig : ProcSig} {receiver : Bool} {info : ProcInfo} (h : σ.Framed)
    (hv : σ.place.Valid) (hc : σ.control w = .user) :
    (σ.storeFrame w sig receiver info).Framed := by
  have hown := hv.own w
  rw [show σ.place.role w = .running from congrArg Control.role hc] at hown
  obtain ⟨-, -, htail⟩ := hown
  simp only [place] at htail
  refine ⟨h.root, h.some, ?_, ?_⟩
  · intro u t
    by_cases hu : u = w
    · simp [hu, Control.role]
    · simpa [hu] using h.starting u t
  · intro u b (hb : σ.place.Runs u b)
    have hb := h.runs u b hb
    by_cases hu : u = w
    · subst hu
      have hne : fieldOf σ.cache ClosureCache.head u ≠ fieldOf σ.cache ClosureCache.tail u := by
        omega
      simpa [hne] using hb
    · simpa [hu] using hb

/-- A slow clone that sets its result takes the frame off its closure, which
does not run any more. -/
theorem setResult {t : ClosureId} {r : Bytes} (h : σ.Framed) (hv : σ.place.Valid)
    (hc : σ.control w = .slowLock (.setResult r) t) : (σ.setResult w t r).Framed := by
  have hown := hv.own w
  rw [show σ.place.role w = .slow t from congrArg Control.role hc] at hown
  obtain ⟨⟨hb, hrun, -⟩, -⟩ := hown
  simp only [place, Placement.bottom] at hb hrun
  refine ⟨?_, ?_, ?_, ?_⟩
  · simp
    grind [h.root]
  · simp
    grind [h.some]
  · intro u c
    by_cases hu : u = w
    · simp [hu, Control.role]
    · simp [hu]
      intro hstart
      have hct : c ≠ t := by
        rintro rfl
        have htoken : (σ.place.role u).token = .some c :=
          congrArg Role.token (show σ.place.role u = .starting c from hstart)
        exact hv.token_not_mem htoken w (List.mem_of_getLast? hb)
      rw [Function.update_of_ne hct]
      exact h.starting u c hstart
  · intro u b hb
    simp [Placement.Runs, Placement.bottom, place] at hb ⊢
    have hbt : b ≠ t := by
      rintro rfl
      simp at hb
    rw [Function.update_of_ne hbt] at hb ⊢
    exact h.runs u b hb

/-- **The frames stay where they belong**, in every transition. -/
theorem transition (h : σ.Framed) (hs : σ.Stacked) (hsound : σ.Sound)
    (ht : Transition cfg w σ σ') : σ'.Framed := by
  have hv := hsound.placed
  -- what is left of a deque without its bottom does not run
  have hbottom : ∀ {u t b}, (fieldOf σ.deque ReadyDeque.closures u).getLast? = .some t →
      (fieldOf σ.deque ReadyDeque.closures u).dropLast.getLast? = .some b →
      fieldOf σ.closure Closure.status b = .ready := fun ht hb =>
    hv.dropLast_ready ht (List.mem_of_getLast? hb)
  cases ht
  case stealNone => exact h
  case setup t hc _ hstatus _ => exact h.setup hv hc hstatus
  case insert t hc _ => exact h.insert hv hc
  case promote v cl hc => exact h.stealPromote hs hsound hc
  case finishPromote p c _ hc _ => exact h.stealFinish hv hc
  case inletAbort k i rest args hc hnext _ _ _ => exact h.inletAbort hs hsound hc hnext
  case pollHandler t g r hc _ hb hσ' => exact h.pollHandler hv hc hb hσ'
  case handlerRelock t g r hc _ hσ' => exact h.handlerRelock hv hc hσ'
  case pollSuspend t hc _ _ => exact h.pollSuspend hv hc
  case pollWake c p hc _ => exact h.pollWake hv hc
  case spawn hc _ => exact h.storeFrame hv hc
  case slowSetResult t r hc _ => exact h.setResult hv hc
  -- the deque loses its bottom or its top, and no closure starts to run
  case fetchSome t hc _ hb =>
    refine h.keep (w := w) (by simp) (by simp) (by simp) (by simp; rfl) ?_ ?_ ?_
    · simp
    · simp [Control.role]
    · simp [Placement.Runs, Placement.bottom, place]
      grind
  case stealReady v cl hc _ _ hstatus =>
    have htop : (fieldOf σ.deque ReadyDeque.closures v).head? = .some cl :=
      (hv.peeking w v cl (congrArg Control.role hc)).2
    refine h.keep (w := w) (by simp) (by simp) (by simp) (by simp; rfl) ?_ ?_ ?_
    · simp
    · simp [Control.role]
    · simp [Placement.Runs, Placement.bottom, place]
      grind
  case remove t hc _ hb =>
    refine h.keep (w := w) (by simp) (by simp) (by simp) (by simp; rfl) ?_ ?_ ?_
    · simp
    · simp [Control.role]
    · simp [Placement.Runs, Placement.bottom, place]
      grind
  case abortSuspend t hc _ hready _ _ =>
    refine h.keep (w := w) (by simp) (by simp) (by simp) (by simp; rfl) ?_ ?_ ?_
    · simp at hready
      simpa using ne_returning_of_update (by simp [hready])
    · simp [Control.role]
    · simp [Placement.Runs, Placement.bottom, place]
      grind
  case leave =>
    refine h.keep (w := w) rfl rfl rfl rfl ?_ ?_ ?_
    · simp
    · simp [Control.role]
    · simp [Placement.Runs, Placement.bottom, place]
  case walkDone i _ =>
    cases i
    all_goals
      refine h.keep (w := w) rfl rfl rfl rfl ?_ ?_ ?_
      · simp [freeAborted]
      · simp [Control.role, *]
      · simp [Placement.Runs, Placement.bottom, place, freeAborted]
  case returnRunning hσ' _ | returnPoll hσ' _ =>
    cases hσ'
    all_goals
      refine h.keep (w := w) (by simp) (by simp [-modifyCacheOf_cache])
        (by simp [-modifyCacheOf_cache]) (by simp; rfl) ?_ ?_ ?_
      · simp
      · simp [Control.role, PollCaller.role, *]
      · simp [Placement.Runs, Placement.bottom, place]
  -- nothing that the frames depend on changes
  all_goals
    refine h.keep (w := w) (by simp) (by simp [-modifyCacheOf_cache])
      (by simp [-modifyCacheOf_cache]) (by simp; rfl) ?_ ?_ ?_
    · simp; try grind
    · simp [Control.role, PollCaller.role, *]
    · simp [Placement.Runs, Placement.bottom, place]; try grind

/-- At the start the root closure has the frame of `invoke_main`, and no other
closure has one. -/
theorem init (w₀ : W) : (State.init cfg w₀).Framed where
  root c hc := by
    by_contra hne
    simp [State.init, fieldOf, hne] at hc
  some c hc := by
    simp only [State.init, fieldOf] at hc ⊢
    split at hc <;> simp_all
  starting w t hw := by
    rw [show (State.init cfg w₀).control w = if w = w₀ then _ else _ from rfl] at hw
    split at hw <;> simp [Control.role] at hw
  runs w b hb := by
    simp [Placement.Runs, Placement.bottom, place, State.init, fieldOf] at hb

/-- The frames of every reachable state. -/
theorem reachable {w₀ : W} (h : (scheduler cfg w₀).Reachable σ) : σ.Framed :=
  h.invariant (init w₀) fun _ _ _ hr h hst =>
    h.transition (Stacked.reachable hr) (Sound.reachable hr) (transition_of_step hst)

end Framed

omit [DecidableEq W] in
/-- **What `invoke_main` removes at its end is its own closure.** -/
theorem Framed.eq_root_of_remove {t : ClosureId} (h : σ.Framed) (hs : σ.Stacked)
    (hv : σ.place.Valid) (hc : σ.control w = .remove)
    (hb : (σ.deque w).closures.getLast? = .some t) : t = rootClosure := by
  have hown := hv.own w
  rw [show σ.place.role w = .removing from congrArg Control.role hc] at hown
  obtain ⟨b, hruns, hhead, -⟩ := hown
  cases Option.some.inj (hb.symm.trans hruns.1)
  have hframe := h.runs w t hruns
  rw [show fieldOf σ.cache ClosureCache.head w = 0 from hhead, hs.removing w hc] at hframe
  exact h.root t hframe

end State

end Cilk
