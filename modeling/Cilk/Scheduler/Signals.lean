import Cilk.Scheduler.Joins

/-!
# No notification is missed

A child that returns to a running parent leaves its inlet there, and an abort
leaves its mark; either raises the exception pointer of the cache the closure
runs on to `EXCEPTION_INFINITY`, so that the next pop traps. The pointer is
shared with thieves, which raise and lower it, and with whatever else runs on
the cache: it is reset by `setup_for_execution`, which polls the inlets before
it gives back the lock, and by the exception handler, which has polled them
and looks at the mark after the reset.
-/

namespace Cilk

variable {W : Type}

/-- The closure that the worker polls before it executes it, or detaches from
the cache it ran on. -/
def Control.attending : Control W → Option ClosureId
  | poll (.setup t) | abortWalk (.setup t) _ _ _ | finishPromote t _ => some t
  | _ => none

namespace State

/-- The closure has something to see to before it goes on. -/
def Notified (σ : State W) (c : ClosureId) : Prop :=
  fieldOf σ.closure Closure.completeInlets c ≠ [] ∨
    fieldOf σ.closure Closure.abortStatus c = .abortAll

/-- A closure that is set up for execution is not killed before it runs. -/
def SetUp (σ : State W) : Prop :=
  ∀ w t, (σ.control w).polling = some (.setup t) →
    fieldOf σ.closure Closure.abortStatus t ≠ .abortAll

/-- Where the exception handler finds another closure at the bottom than the
one it polled, that closure was promoted from it. -/
def Relocked (σ : State W) : Prop :=
  ∀ w b, (∃ t g r, (σ.control w).polling = some (.handler t g r) ∧ t ≠ b) ∨
      (∃ g r, σ.control w = .handlerRelock b g r) → σ.place.bottom w = some b →
    1 ≤ fieldOf σ.cache ClosureCache.head w

/-- **A running closure that is notified will trap**, unless its lock is held by
a worker that sees to the notification. -/
def Signalled (σ : State W) : Prop :=
  ∀ c v, fieldOf σ.closure Closure.magic c = true →
    fieldOf σ.closure Closure.status c = .running →
    fieldOf σ.closure Closure.cache c = some v → σ.Notified c →
    fieldOf σ.cache ClosureCache.exception v = .infinity ∨
      ∃ w, (σ.control w).attending = some c

variable [DecidableEq W] {cfg : Config} {w w₀ : W} {σ σ' : State W}

section Caches

variable {c : ClosureId} {g : ClosureCache → ClosureCache} {a : AbortStatus} {args : Bytes} {v : W}

/-- The exception pointer of a cache that a closure runs on. -/
@[simp] theorem exception_modifyCacheOf :
    fieldOf (σ.modifyCacheOf c g).cache ClosureCache.exception v =
      if fieldOf σ.closure Closure.cache c = some v then (g (σ.cache v)).exception
      else fieldOf σ.cache ClosureCache.exception v := by
  unfold modifyCacheOf
  simp only [cache_closure]
  split
  case h_1 u hu =>
    simp only [hu, Option.some.injEq, fieldOf_update, Function.update_apply, eq_comm]
    split
    case isTrue he => rw [he]
    case isFalse => rfl
  case h_2 hnone => simp [hnone]

/-- `Closure_signal_abort` raises the exception pointer where the closure runs.
-/
@[simp] theorem exception_signalAbortHere :
    fieldOf (σ.signalAbortHere c a).cache ClosureCache.exception v =
      if fieldOf σ.closure Closure.status c = .running ∧
        fieldOf σ.closure Closure.cache c = some v then .infinity
      else fieldOf σ.cache ClosureCache.exception v := by
  unfold signalAbortHere
  split
  case isTrue hrun =>
    have hrun : fieldOf σ.closure Closure.status c = .running := by simpa [isRunning] using hrun
    simp [-modifyCacheOf_cache, hrun]
  case isFalse hrun =>
    have hrun : fieldOf σ.closure Closure.status c ≠ .running := by simpa [isRunning] using hrun
    simp [hrun]

/-- Detaching a parent for an inlet leaves the exception pointers. -/
@[simp] theorem exception_detachFromInlet :
    fieldOf (σ.detachFromInlet cfg w c args).cache ClosureCache.exception v =
      fieldOf σ.cache ClosureCache.exception v := by
  unfold detachFromInlet
  split
  · simp
  · rfl

end Caches

/-- **Every step keeps it**: who sets up a closure holds its lock. -/
theorem SetUp.transition (h : σ.SetUp) (hl : σ.LocksHeld) (hl' : σ'.LocksHeld)
    (ht : Transition cfg w σ σ') : σ'.SetUp := by
  intro u t hu hall
  have hheld : .closure t ∈ σ'.held u := Control.mem_held_of_polling (k := .setup t) hu
  cases abortStep hl t ht with
  | kept hk =>
    by_cases huw : u = w
    · subst huw
      have hbefore : fieldOf σ.closure Closure.abortStatus t = .abortAll := hk.symm.trans hall
      have hnot := h u t
      cases ht
      case setup habort =>
        simp [Control.polling] at hu habort
        simp [← hu, habort] at hbefore
      case pollHandler hσ' | handlerRelock hσ' => cases hσ' <;> simp [Control.polling] at hu
      case returnRunning hσ' _ | returnPoll hσ' _ => cases hσ' <;> simp [Control.polling] at hu
      case walkDone i hc =>
        cases i
        all_goals
          simp [Control.polling] at hu
          exact hnot (by rw [hc]; exact congrArg some hu) hbefore
      case stealNone => exact hnot hu hbefore
      case inletDrop | inletApply => exact hnot hu hbefore
      case inletAbort hc _ _ _ _ | walkFirst hc _ | walkDown hc _ | walkUp hc =>
        simp [Control.polling] at hu
        exact hnot (by rw [hc]; exact congrArg some hu) hbefore
      all_goals simp [Control.polling] at hu
    · rw [control_step huw ht] at hu
      exact h u t hu (hk.symm.trans hall)
  | created _ hr | reset _ _ hr | requested _ _ _ _ _ hr => cases hr.symm.trans hall
  | marked k i todo path hcontrol hfree _ =>
    -- the walk would hold the lock of the closure twice
    have hmem : .closure t ∈ σ'.held w := by
      rw [held, hcontrol]
      exact List.mem_cons_self
    obtain rfl := hl'.held.unique hheld hmem
    rw [hcontrol] at hu
    cases hu
    have hnd := hl'.held.nodup u
    rw [held, hcontrol] at hnd
    simp [Control.held, PollCaller.held] at hnd

/-- In every reachable state a closure that is set up is not aborted. -/
theorem SetUp.reachable (h : (scheduler cfg w₀).Reachable σ) : σ.SetUp := by
  refine h.invariant ?_ fun τ τ' a hr h hst =>
    h.transition (LocksHeld.reachable hr) (LocksHeld.reachable (hr.step a hst))
      (transition_of_step hst)
  intro w t hw
  rw [show ((scheduler cfg w₀).init).control w = if w = w₀ then _ else _ from rfl] at hw
  split at hw <;> cases hw

/-- **Every step keeps it.** -/
theorem Relocked.transition (h : σ.Relocked) (hsound : σ.Sound)
    (ht : Transition cfg w σ σ') : σ'.Relocked := by
  have hv := hsound.placed
  have hrole : σ.place.role w = (σ.control w).role := rfl
  have hown := hv.own w
  intro u b hu hb
  by_cases huw : u = w
  · subst huw
    have hold := h u b
    cases ht
    case handlerLock t g r hc _ =>
      -- the closure that was locked is the one at the bottom
      rw [hrole, hc] at hown
      have ht : σ.place.bottom u = some t := hown.2.elim (·.1.1) (·.1.1)
      obtain ⟨t', g', r', hh, hne⟩ | ⟨g', r', hh⟩ := hu
      · simp [Control.polling] at hh
        exact absurd (Option.some.inj (ht.symm.trans hb)) (hh.1 ▸ hne)
      · simp at hh
    case pollRelock t t' g r hc _ hb' hne =>
      simp
      refine hold (.inl ⟨t, g, r, by rw [hc]; rfl, ?_⟩) hb
      rintro rfl
      exact hne (Option.some.inj (hb'.symm.trans hb))
    case inletAbort k i rest args hc hnext habort hinlet hargs =>
      obtain ⟨t, g, r, hh, hne⟩ | ⟨g, r, hh⟩ := hu
      · simp [Control.polling] at hh
        simp [Placement.bottom, place] at hb
        simp
        unfold detachFromInlet at hb ⊢
        split at hb
        case isTrue hdetach =>
          -- the head has moved over the frame that was detached
          rw [if_pos hdetach]
          simp
        case isFalse hdetach =>
          rw [if_neg hdetach]
          simp at hb
          exact hold (.inl ⟨t, g, r, by rw [hc]; exact congrArg some hh, hne⟩) hb
      · simp at hh
    case walkDone k i hc =>
      obtain ⟨t, g, r, hh, hne⟩ | ⟨g, r, hh⟩ := hu
      · simp [Control.polling] at hh
        cases i
        all_goals exact hold (.inl ⟨t, g, r, by rw [hc]; exact congrArg some hh, hne⟩) hb
      · simp at hh
    case stealNone | inletDrop | inletApply => exact hold hu hb
    case pollHandler hσ' | handlerRelock hσ' => cases hσ' <;> simp [Control.polling] at hu
    case returnRunning hσ' _ | returnPoll hσ' _ => cases hσ' <;> simp [Control.polling] at hu
    case walkFirst hc _ | walkDown hc _ | walkUp hc =>
      obtain ⟨t, g, r, hh, hne⟩ | ⟨g, r, hh⟩ := hu
      · simp [Control.polling] at hh
        simp [Placement.bottom, place] at hb
        simp
        exact hold (.inl ⟨t, g, r, by rw [hc]; exact congrArg some hh, hne⟩) hb
      · simp at hh
    all_goals simp [Control.polling] at hu
  · -- nobody else touches the deque while the exception handler has it
    rw [control_step huw ht] at hu
    have hlock : (σ.place.role u).locks u = some u := by
      rw [show σ.place.role u = (σ.control u).role from rfl]
      obtain ⟨t, g, r, hh, -⟩ | ⟨g, r, hh⟩ := hu
      · rcases hc : σ.control u <;> rw [hc] at hh <;> cases hh <;> rfl
      · rw [hh]
        rfl
    have hold := h u b hu
    cases ht
    case promote v cl hc =>
      have hvu : v ≠ u := by
        rintro rfl
        exact huw (hv.locks_unique v w v hlock (by rw [hrole, hc]; rfl))
      simp [Placement.bottom, place, hvu.symm] at hb
      simp [hvu.symm]
      exact hold hb
    case stealReady v cl hc _ _ _ =>
      have hvu : v ≠ u := by
        rintro rfl
        exact huw (hv.locks_unique v w v hlock (by rw [hrole, hc]; rfl))
      simp [Placement.bottom, place, hvu.symm] at hb
      exact hold hb
    case pollHandler hσ' | handlerRelock hσ' =>
      cases hσ'
      all_goals
        simp [Placement.bottom, place, huw] at hb
        simp [-modifyCacheOf_cache]
        exact hold hb
    case returnRunning hσ' _ | returnPoll hσ' _ =>
      cases hσ'
      all_goals
        simp [Placement.bottom, place] at hb
        simp [-modifyCacheOf_cache]
        exact hold hb
    case walkDone i _ => cases i <;> exact hold hb
    case inletAbort =>
      simp [Placement.bottom, place] at hb
      simp
      unfold detachFromInlet at hb ⊢
      split at hb
      case isTrue hdetach =>
        rw [if_pos hdetach]
        simp [huw] at hb ⊢
        exact hold hb
      case isFalse hdetach =>
        rw [if_neg hdetach]
        simp at hb
        exact hold hb
    all_goals
      simp [Placement.bottom, place, huw] at hb
      simp [huw, -modifyCacheOf_cache]
      exact hold hb

/-- It holds in every reachable state. -/
theorem Relocked.reachable (h : (scheduler cfg w₀).Reachable σ) : σ.Relocked := by
  refine h.invariant ?_ fun τ τ' a hr h hst =>
    h.transition (Sound.reachable hr) (transition_of_step hst)
  intro w b _ hb
  cases hb

namespace Signalled

/-- A step of worker `w`. -/
theorem keep {q : Control W} (h : σ.Signalled)
    (hcontrol : σ'.control = Function.update σ.control w q)
    (hsignal : ∀ c v, fieldOf σ'.closure Closure.magic c = true →
      fieldOf σ'.closure Closure.status c = .running →
      fieldOf σ'.closure Closure.cache c = some v → σ'.Notified c →
      fieldOf σ'.cache ClosureCache.exception v = .infinity ∨ q.attending = some c ∨
      (∃ u, u ≠ w ∧ (σ.control u).attending = some c) ∨
      fieldOf σ.closure Closure.magic c = true ∧
        fieldOf σ.closure Closure.status c = .running ∧
        fieldOf σ.closure Closure.cache c = some v ∧ σ.Notified c ∧
        (fieldOf σ.cache ClosureCache.exception v = .infinity →
          fieldOf σ'.cache ClosureCache.exception v = .infinity) ∧
        ((σ.control w).attending = some c → q.attending = some c)) : σ'.Signalled := by
  intro c v hlive hrun hcache hnote
  rw [hcontrol]
  rcases hsignal c v hlive hrun hcache hnote with hinf | hq | ⟨u, hu, hatt⟩ |
    ⟨hlive, hrun, hcache, hnote, hinf, hq⟩
  · exact .inl hinf
  · exact .inr ⟨w, by rw [Function.update_self, hq]⟩
  · exact .inr ⟨u, by rw [Function.update_of_ne hu, hatt]⟩
  · refine (h c v hlive hrun hcache hnote).imp hinf fun ⟨u, hu⟩ => ⟨u, ?_⟩
    rw [Function.update_apply]
    split
    case isTrue he => exact hq (he ▸ hu)
    case isFalse => exact hu

omit [DecidableEq W] in
/-- Who runs on the cache of a worker. -/
theorem runs_or_attended (hv : σ.place.Valid) {c : ClosureId} {v : W}
    (hlive : fieldOf σ.closure Closure.magic c = true)
    (hrun : fieldOf σ.closure Closure.status c = .running)
    (hcache : fieldOf σ.closure Closure.cache c = some v) :
    σ.place.Runs v c ∨ ((σ.control v).role : Role W) = .starting c ∨
      ∃ u, (∃ d, σ.control u = .finishPromote c d) ∧ (σ.control u).attending = some c := by
  have hparked : ¬ σ.place.custody.parked c := by
    intro hs
    cases hrun.symm.trans hs
  obtain ⟨u, hu | hu, -⟩ := hv.custody.existsUnique_holds hlive hparked
  · have hruns := hv.runs_of_mem hu hrun
    cases Option.some.inj (hruns.2.2.symm.trans hcache)
    exact .inl hruns
  · rcases hv.token_running hu hrun with ⟨hrole, hc, -⟩ | ⟨d, hd⟩
    · cases Option.some.inj (hc.symm.trans hcache)
      exact .inr (.inl hrole)
    · have hcontrol := Control.of_role_detached hd
      exact .inr (.inr ⟨u, ⟨d, hcontrol⟩, by rw [hcontrol]; rfl⟩)

omit [DecidableEq W] in
/-- What else runs on the cache of `w` is being detached from it. -/
theorem exists_attending (hv : σ.place.Valid) (hatt : (σ.control w).attending = none)
    (hrole : ∀ c, ((σ.control w).role : Role W) ≠ .starting c) {c : ClosureId}
    (hnot : ¬ σ.place.Runs w c) (hlive : fieldOf σ.closure Closure.magic c = true)
    (hrun : fieldOf σ.closure Closure.status c = .running)
    (hcache : fieldOf σ.closure Closure.cache c = some w) :
    ∃ u, u ≠ w ∧ (σ.control u).attending = some c := by
  rcases runs_or_attended hv hlive hrun hcache with hruns | hs | ⟨u, -, hu⟩
  · exact absurd hruns hnot
  · exact absurd hs (hrole c)
  · refine ⟨u, ?_, hu⟩
    rintro rfl
    cases hatt.symm.trans hu

/-- The exception handler looks at the mark after it has reset the exception
pointer. -/
theorem handled {t : ClosureId} {g : FrameId} {r : Bytes} (h : σ.Signalled)
    (hv : σ.place.Valid) (hatt : (σ.control w).attending = none)
    (hrole : ∀ c, ((σ.control w).role : Role W) ≠ .starting c)
    (hb : σ.place.bottom w = some t) (hcache : fieldOf σ.closure Closure.cache t = some w)
    (hempty : fieldOf σ.closure Closure.status t = .running →
      fieldOf σ.closure Closure.completeInlets t = [])
    (hσ' : Handled w t g r (σ.resetExceptionPointer t) σ') : σ'.Signalled := by
  have hother : ∀ c, c ≠ t → fieldOf σ.closure Closure.magic c = true →
      fieldOf σ.closure Closure.status c = .running →
      fieldOf σ.closure Closure.cache c = some w →
      ∃ u, u ≠ w ∧ (σ.control u).attending = some c := by
    intro c hc
    refine exists_attending hv hatt hrole fun hruns => hc ?_
    exact Option.some.inj (hruns.1.symm.trans hb)
  cases hσ'
  all_goals
    refine h.keep (w := w) (by simp; rfl) fun c v => ?_
    by_cases hct : c = t
    · subst hct
      simp at *
      all_goals
        simp [Notified, -modifyCacheOf_cache, *]
        try grind
    · have hother := hother c hct
      simp [Notified, hcache, hct, hatt, -modifyCacheOf_cache]
      grind

/-- **Every step keeps it.** Who changes what a closure has to be told of raises
the exception pointer, or is still at work on it. -/
theorem transition (h : σ.Signalled) (hsound : σ.Sound) (hs : σ.SetUp) (hr : σ.Relocked)
    (ht : Transition cfg w σ σ') : σ'.Signalled := by
  have hv := hsound.placed
  have hrole : σ.place.role w = (σ.control w).role := rfl
  have hown := hv.own w
  cases ht
  case stealNone => exact h
  case stealRunning cl hc _ _ _ | retract cl hc =>
    refine h.keep (w := w) (by simp; rfl) fun c v => ?_
    simp [Notified, Control.attending, hc, -modifyCacheOf_cache]
    intro hlive hrun hcache hnote
    refine .inr (.inr ⟨hlive, hrun, hcache, hnote, fun hinf => ?_⟩)
    simp [hinf, ExceptionPointer.increment, ExceptionPointer.decrement]
  case setup t hc hfree hstatus habort =>
    rw [hrole, hc] at hown
    have hother := fun c => exists_attending (w := w) (c := c) hv (by rw [hc]; rfl)
      (by simp [hc, Control.role]) fun hruns => by
        cases (hown.1 c hruns.1).symm.trans hruns.2.1
    refine h.keep (w := w) (by simp; rfl) fun c v => ?_
    have hatt : (Control.poll (.setup t) : Control W).attending = some t := rfl
    have hother := hother c
    simp [Notified, hc, hatt, -modifyCacheOf_cache]
    rw [show (Control.execute t : Control W).attending = none from rfl]
    grind
  case pollSetup t hc hempty =>
    have habort := hs w t (by rw [hc]; rfl)
    refine h.keep (w := w) (by simp; rfl) fun c v => ?_
    simp [Notified, Control.attending, hc, -modifyCacheOf_cache]
    simp at hempty
    grind
  case pollHandler t g r hc hempty hb hσ' =>
    have hτ : (σ.pollDone t).Signalled := by
      refine h.keep (w := w) (q := σ.control w) (Function.update_eq_self ..).symm fun c v => ?_
      simp [Notified]
      grind
    have hplace : (σ.pollDone t).place = σ.place := by apply Placement.ext <;> simp [place]
    rw [hrole, hc] at hown
    have hcache : fieldOf σ.closure Closure.cache t = some w := by
      obtain ⟨-, -, b, ⟨hruns, -⟩ | ⟨hret, -⟩⟩ := hown
      · cases Option.some.inj (hruns.1.symm.trans hb)
        exact hruns.2.2
      · cases Option.some.inj (hret.1.symm.trans hb)
        exact hret.2.2
    refine hτ.handled (hplace ▸ hv) (by simp [hc]; rfl) (by simp [hc, Control.role, PollCaller.role])
      (hplace ▸ hb) (by simpa using hcache) (fun _ => by simpa using hempty) hσ'
  case inletDrop k i rest hc hnext _ | inletApply k i rest hc hnext _ _ =>
    refine h.keep (w := w) (Function.update_eq_self ..).symm fun c v => ?_
    simp at hnext
    simp [Notified]
    grind
  case inletAbort k i rest args hc hnext _ _ _ =>
    refine h.keep (w := w) (by simp; rfl) fun c v => ?_
    have hatt : ∀ l, (Control.abortWalk k (some i) l [] : Control W).attending =
        (Control.poll k : Control W).attending := fun l => by cases k <;> rfl
    have hlt : k.closure < σ.nextClosure := hsound.named.control w _ (by
      rw [hc]
      exact k.closure_mem)
    simp at hnext
    simp [Notified, hatt, hc, -modifyCacheOf_cache]
    unfold detachFromInlet
    split
    · by_cases hnew : c = σ.nextClosure
      · simp [hnew, hlt.ne']
      · by_cases hk : c = k.closure
        · simp [hk]
        · simp [hnew, hk]
          grind
    · by_cases hk : c = k.closure
      · simp [hk, hnext]
        grind
      · simp [hk]
        grind
  case walkDone k i hc =>
    cases i
    all_goals
      refine h.keep (w := w) rfl fun c v hlive hrun hcache hnote => .inr (.inr (.inr ?_))
      refine ⟨hlive, hrun, hcache, hnote, id, ?_⟩
      rw [hc]
      cases k <;> exact id
  case returnRunning p i _ hc _ hσ' hrun | returnPoll p i _ hc _ hσ' hrun =>
    cases hσ'
    all_goals
      refine h.keep (w := w) (by simp; rfl) fun c v => ?_
      simp at hrun
      simp [Notified, Control.attending, hc, -modifyCacheOf_cache]
      grind
  case handlerRelock t g r hc hfree hσ' =>
    have hτ : (σ.lockClosure w t).Signalled := by
      refine h.keep (w := w) (q := σ.control w) (Function.update_eq_self ..).symm fun c v => ?_
      simp [Notified]
      grind
    have hplace : (σ.lockClosure w t).place = σ.place := by apply Placement.ext <;> simp [place]
    rw [hrole, hc] at hown
    have hb : σ.place.bottom w = some t := hown.2.elim (·.1.1) (·.1.1)
    have hcache : fieldOf σ.closure Closure.cache t = some w := hown.2.elim (·.1.2.2) (·.1.2.2)
    refine hτ.handled (hplace ▸ hv) (by simp [hc]; rfl) (by simp [hc, Control.role])
      (hplace ▸ hb) (by simpa using hcache) (fun hrun => ?_) hσ'
    -- a closure that was promoted has nothing to poll
    simp at hrun
    have hfast := hv.fast w t hb hrun (hr w t (.inr ⟨g, r, hc⟩) hb)
    have hidle := Closure.idle_iff.mp (show (σ.closure t).idle = true from hfast.1)
    simpa using hidle.2.2
  case exitPoll hstatus =>
    refine h.keep (w := w) (by simp; rfl) fun c v => ?_
    simp at hstatus
    simp [Notified, Control.attending, *, -modifyCacheOf_cache]
    grind
  all_goals
    refine h.keep (w := w) (by simp; rfl) fun c v => ?_
    simp [Notified, Control.attending, *, -modifyCacheOf_cache]
    try grind

/-- It holds in every reachable state. -/
theorem reachable (h : (scheduler cfg w₀).Reachable σ) : σ.Signalled := by
  refine h.invariant ?_ fun τ τ' a hr h hst =>
    h.transition (Sound.reachable hr) (SetUp.reachable hr) (Relocked.reachable hr)
      (transition_of_step hst)
  intro c v _ hrun
  simp only [scheduler, State.init, fieldOf] at hrun
  split at hrun <;> cases hrun

end Signalled

omit [DecidableEq W] in
/-- Who attends to a closure has its lock. -/
theorem mem_held_of_attending {c : ClosureId} (h : (σ.control w).attending = some c) :
    .closure c ∈ σ.held w := by
  rw [held]
  cases hc : σ.control w <;> rw [hc] at h
  case poll k | abortWalk k _ _ _ =>
    cases k <;> cases h
    simp [Control.held, PollCaller.held]
  case finishPromote =>
    cases h
    simp [Control.held]
  all_goals cases h

end State

section Results

variable [DecidableEq W] {cfg : Config} {w₀ : W} {σ : State W}

/-- **No inlet and no abort is missed.** Where the lock of a running closure is
free and the closure has inlets to apply or is to be killed, the exception
pointer of its cache is `EXCEPTION_INFINITY`, and whatever pops there traps. -/
theorem notified_closure_traps (hr : (scheduler cfg w₀).Reachable σ) {c : ClosureId} {v : W}
    (hlive : (σ.closure c).magic = true) (hrun : (σ.closure c).status = .running)
    (hcache : (σ.closure c).cache = some v) (hfree : (σ.closure c).mutexOwner = none)
    (hnote : σ.Notified c) :
    (σ.cache v).exception = .infinity ∧ ∀ g r, σ.control v = .popCheck g r →
      State.step cfg (v, .go) σ = some (σ.goto v (.handlerDeque g r)) := by
  have hinf : (σ.cache v).exception = .infinity := by
    refine (State.Signalled.reachable hr c v hlive hrun hcache hnote).resolve_right ?_
    rintro ⟨w, hw⟩
    exact (State.LocksHeld.reachable hr).held.not_mem_of_free (l := .closure c) hfree
      (State.mem_held_of_attending hw)
  refine ⟨hinf, fun g r hc => ?_⟩
  simp only [State.step, hc, State.popCheck, hinf]
  rfl

/-- A child has returned to a parent that runs. -/
theorem notified_closure_traps_running : ∃ σ : State (Fin 2),
    (σ.closure 0).completeInlets ≠ [] ∧ (σ.closure 0).mutexOwner = none ∧
    (σ.cache 1).exception = .infinity := by
  obtain ⟨σ, hr, hp⟩ := TransitionSystem.Reachable.of_eval (M := scheduler .small (0 : Fin 2))
    returnToRunning
    (fun σ => (σ.closure 0).magic && (σ.closure 0).status == .running &&
      (σ.closure 0).cache == some 1 && (σ.closure 0).mutexOwner == none &&
      (σ.closure 0).completeInlets != []) (by decide +kernel)
  simp only [Bool.and_eq_true, beq_iff_eq, bne_iff_ne] at hp
  obtain ⟨⟨⟨⟨hlive, hrun⟩, hcache⟩, hfree⟩, hnote⟩ := hp
  exact ⟨σ, hnote, hfree,
    (notified_closure_traps hr hlive hrun hcache hfree (.inl hnote)).1⟩

end Results

end Cilk
