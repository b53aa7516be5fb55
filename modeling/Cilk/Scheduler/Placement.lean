import Cilk.Custody
import Cilk.Scheduler.State
import Mathlib.Tactic

/-!
# Placements

Where each closure is held, and how far each worker is with its stack: what
remains of a state once the lists of inlets, the frames and the closure locks
are forgotten. A closure is held by a deque or is the local variable `t` of a
worker, and what a worker may find at the bottom of its own deque depends on
its `Role`.
-/

namespace Cilk

variable {W : Type}

/-- What a worker is doing with closures. The locals of a role are those of
the runtime function the worker is in. -/
inductive Role (W : Type)
  /-- About to look at its own deque, or gone. -/
  | fetching
  /-- Between two attempts to steal. -/
  | away
  /-- A thief with the lock of the deque of `v`, whose top is `cl`. -/
  | peeking (v : W) (cl : ClosureId)
  /-- A thief that has raised the exception, and may have read the head. -/
  | dekking (v : W) (cl : ClosureId) (head : Option ℕ)
  | retracting (v : W) (cl : ClosureId)
  | promoting (v : W) (cl : ClosureId)
  /-- A thief between `promote_child` and the end of `finish_promote`. -/
  | detached (p c : ClosureId)
  | executing (t : ClosureId)
  /-- Between `setup_for_execution` and the insertion into the deque. -/
  | starting (t : ClosureId)
  /-- In `Closure_return`, from the lock of the parent on with the parent. -/
  | returning (t : ClosureId) (parent : Option ClosureId)
  /-- In `provably_good_steal_maybe`, with a suspended parent. -/
  | waking (t p : ClosureId)
  | running
  /-- Slow code on its way to the lock of its own deque. -/
  | calling
  /-- Slow code with the lock of its own deque. -/
  | slow (t : ClosureId)
  | popping
  /-- In the exception handler, on the way to the lock of `t`. -/
  | trapped (t : ClosureId)
  /-- In the exception handler, polling the inlets of `t`. -/
  | handling (t : ClosureId)
  | unwinding
  /-- In the return of a slow clone, after `Cilk_set_result`. -/
  | leaving
  | removing

namespace Role

/-- The closure that is the local `t` of the worker. -/
def token : Role W → Option ClosureId
  | detached t _ | executing t | starting t | returning t _ | waking t _ => some t
  | _ => none

/-- The deque a worker `w` in this role has locked. -/
def locks (w : W) : Role W → Option W
  | peeking v _ | dekking v _ _ | retracting v _ | promoting v _ => some v
  | slow _ | trapped _ | handling _ => some w
  | _ => none

/-- The running closure whose exception pointer a thief has raised. -/
def raised : Role W → Option (W × ClosureId)
  | dekking v cl _ | retracting v cl | promoting v cl => some (v, cl)
  | _ => none

/-- The exception pointer of the worker's cache has its meaning. -/
def guarded : Role W → Prop
  | starting _ | running | calling | slow _ | popping | unwinding | removing => True
  | _ => False

end Role

/-- The holders of the closures, and the pointers of the caches. -/
@[ext]
structure Placement (W : Type) where
  status : ClosureId → ClosureStatus
  home : ClosureId → Option W
  cache : ClosureId → Option W
  magic : ClosureId → Bool
  /-- No child, and no inlet pending. -/
  idle : ClosureId → Bool
  next : ClosureId
  deque : W → List ClosureId
  head : W → ℕ
  tail : W → ℕ
  exc : W → ExceptionPointer
  role : W → Role W

namespace Placement

variable (P : Placement W)

/-- `deque_peek_bottom`. -/
def bottom (w : W) : Option ClosureId := (P.deque w).getLast?

/-- The custody of the closures. A suspended closure waits for its children
and is in nobody's hands. -/
def custody : Custody W ClosureId where
  queue := P.deque
  home := P.home
  hand w := (P.role w).token
  live c := P.magic c = true
  parked c := P.status c = .suspended

/-- Nothing in the own deque is being executed. -/
def Quiet (w : W) : Prop := ∀ b, P.bottom w = some b → P.status b = .ready

/-- The closure at the bottom of the deque runs on the worker's cache. -/
def Runs (w : W) (b : ClosureId) : Prop :=
  P.bottom w = some b ∧ P.status b = .running ∧ P.cache b = some w

/-- The closure at the bottom has returned, and its worker is on the way out
of its C stack. -/
def Returned (w : W) (b : ClosureId) : Prop :=
  P.bottom w = some b ∧ P.status b = .returning ∧ P.cache b = some w

/-- What a worker in this role finds at the bottom of its own deque, in its
local `t` and in its cache. -/
def Own (w : W) : Role W → Prop
  | .fetching => ∀ b, P.bottom w = some b → P.status b = .ready ∨ P.status b = .returning
  | .away | .peeking _ _ | .dekking _ _ _ | .retracting _ _ | .promoting _ _ => P.Quiet w
  | .detached t _ => P.Quiet w ∧ P.status t = .running
  | .executing t => P.Quiet w ∧ (P.status t = .ready ∨ P.status t = .returning)
  | .starting t => P.Quiet w ∧ P.status t = .running ∧ P.cache t = some w ∧
      P.head w = 0 ∧ P.tail w = 1
  | .returning t _ | .waking t _ => P.Quiet w ∧ P.status t = .returning
  | .running => ∃ b, P.Runs w b ∧ P.head w + 1 ≤ P.tail w
  | .calling => ∃ b, P.Runs w b ∧ P.head w = 0 ∧ P.tail w = 1
  | .slow t => P.Runs w t ∧ P.head w = 0 ∧ P.tail w = 1
  | .popping => 1 ≤ P.tail w ∧ ∃ b, P.Runs w b ∧ P.head w ≤ P.tail w ∨
      P.Returned w b ∧ P.tail w ≤ P.head w
  | .trapped t => 1 ≤ P.tail w ∧ (P.Runs w t ∧ P.head w ≤ P.tail w ∨
      P.Returned w t ∧ P.tail w ≤ P.head w)
  | .handling t => t ∈ P.deque w ∧ 1 ≤ P.tail w ∧ ∃ b, P.Runs w b ∧ P.head w ≤ P.tail w ∨
      P.Returned w b ∧ P.tail w ≤ P.head w
  | .unwinding => 1 ≤ P.tail w ∧
      (P.tail w = 1 → ∀ b, P.bottom w = some b → P.status b = .ready ∨ P.status b = .returning) ∧
      (2 ≤ P.tail w → ∃ b, P.Runs w b ∧ P.head w + 1 ≤ P.tail w ∨
        P.Returned w b ∧ P.tail w ≤ P.head w + 1)
  | .leaving => ∀ b, P.bottom w = some b → P.status b = .returning
  | .removing => ∃ b, P.Runs w b ∧ P.head w = 0 ∧ P.tail w = 1

/-- **The invariant of placements.** -/
structure Valid : Prop where
  custody : P.custody.Valid
  /-- What was not created yet is not there. -/
  fresh : ∀ c, P.next ≤ c → P.magic c = false ∧ P.idle c = true
  next_pos : 0 < P.next
  /-- Only the bottom of a deque may be anything but ready. -/
  above : ∀ w c, c ∈ P.deque w → P.bottom w ≠ some c → P.status c = .ready
  own : ∀ w, P.Own w (P.role w)
  /-- A parent that is being woken up is suspended, by one worker only. -/
  waking : ∀ w t p, P.role w = .waking t p → P.status p = .suspended
  waking_unique : ∀ w w' t t' p, P.role w = .waking t p → P.role w' = .waking t' p → w = w'
  /-- The parent to which a child returns is no fast closure. -/
  window : ∀ w t p, P.role w = .returning t (some p) → p < P.next ∧
    ∀ v, P.bottom v = some p → P.status p = .running → P.head v = 0
  /-- A fast closure has no child and no inlet. -/
  fast : ∀ w b, P.bottom w = some b → P.status b = .running → 1 ≤ P.head w →
    P.idle b = true ∧ b ≠ 0
  locks_unique : ∀ u u' v, (P.role u).locks u = some v → (P.role u').locks u' = some v → u = u'
  /-- The exception pointer is the head, or one above it while a thief tries,
  or tells the worker to stop. -/
  exception : ∀ w, (P.role w).guarded → P.exc w = .infinity ∨ P.exc w = .slot (P.head w) ∨
    (P.exc w = .slot (P.head w + 1) ∧ ∃ u cl, (P.role u).raised = some (w, cl))
  /-- What a thief has read of its victim is still so. -/
  peeking : ∀ u v cl, P.role u = .peeking v cl → u ≠ v ∧ (P.deque v).head? = some cl
  raised : ∀ u v cl, (P.role u).raised = some (v, cl) → u ≠ v ∧ P.deque v = [cl] ∧
    P.status cl = .running ∧ P.exc v ≠ .slot (P.head v)
  dekking : ∀ u v cl h, P.role u = .dekking v cl (some h) → h = P.head v
  /-- There is a frame to steal, and if it is the last one the victim is
  popping it and will go to the exception handler. -/
  promoting : ∀ u v cl, P.role u = .promoting v cl → P.head v + 1 ≤ P.tail v ∧
    (P.tail v = P.head v + 1 → P.role v = .popping)

variable {P}

theorem Valid.next_not_held (h : P.Valid) {w : W} : ¬ P.custody.Holds w P.next := by
  intro hw
  have hfresh := (h.fresh P.next le_rfl).1
  rw [(h.custody.holds_live hw).1] at hfresh
  cases hfresh

theorem Role.locks_of_raised {r : Role W} {u v : W} {cl : ClosureId}
    (hr : r.raised = some (v, cl)) : r.locks u = some v := by
  cases r <;> simp_all [Role.raised, Role.locks]

theorem Role.ne_of_not_raised {r : Role W} {v : W} {cl : ClosureId}
    (hr : r.raised ≠ some (v, cl)) : (∀ h, r ≠ .dekking v cl h) ∧ r ≠ .promoting v cl :=
  ⟨fun _ he => hr (he ▸ rfl), fun he => hr (he ▸ rfl)⟩

/-- Where the deque lock is free or the worker's own, there is no thief. -/
theorem Valid.no_thief (h : P.Valid) {w : W} (hfree : ∀ u, u ≠ w → (P.role u).locks u ≠ some w)
    (u : W) (cl : ClosureId) : (P.role u).raised ≠ some (w, cl) ∧ P.role u ≠ .peeking w cl := by
  constructor
  · intro hr
    exact hfree u (h.raised u w cl hr).1 (Role.locks_of_raised hr)
  · intro hr
    exact hfree u (h.peeking u w cl hr).1 (by rw [hr]; rfl)

/-- A running closure in a deque is at the bottom, and runs on the cache of
the worker. -/
theorem Valid.runs_of_mem (h : P.Valid) {w : W} {c : ClosureId} (hc : c ∈ P.deque w)
    (hs : P.status c = .running) : P.Runs w c := by
  have hb : P.bottom w = some c := by
    by_contra hb
    have hready := h.above w c hc hb
    rw [hs] at hready
    cases hready
  refine ⟨hb, hs, ?_⟩
  have hown := h.own w
  cases hr : P.role w <;> simp only [hr, Own, Quiet, Runs, Returned] at hown <;> grind

/-- A running closure in a hand has been set up and not inserted yet, or it is
a parent that is being detached. -/
theorem Valid.token_running (h : P.Valid) {w : W} {c : ClosureId}
    (hc : (P.role w).token = some c) (hs : P.status c = .running) :
    P.role w = .starting c ∧ P.cache c = some w ∧ P.Quiet w ∨ ∃ d, P.role w = .detached c d := by
  have hown := h.own w
  cases hr : P.role w <;> simp only [hr, Role.token, reduceCtorEq, Option.some.injEq] at hc
  all_goals
    subst hc
    simp only [hr, Own, hs, reduceCtorEq, or_self, and_false] at hown
  case detached p d => exact .inr ⟨d, rfl⟩
  case starting t => exact .inl ⟨rfl, hown.2.2.1, hown.1⟩

/-- A worker that has locked its own deque is not a thief. -/
theorem Valid.not_raised_of_lock (h : P.Valid) {w : W} (hl : (P.role w).locks w = some w) :
    (P.role w).raised = none := by
  rcases hr : (P.role w).raised with _ | ⟨v, cl⟩
  · rfl
  · have hv := Role.locks_of_raised (u := w) hr
    rw [hl] at hv
    exact absurd (Option.some.inj hv) (h.raised w v cl hr).1

theorem bottom_update {Q : Placement W} [DecidableEq W] {w : W} {l : List ClosureId}
    (hQ : Q.deque = Function.update P.deque w l) (u : W) :
    Q.bottom u = if u = w then l.getLast? else P.bottom u := by
  rw [bottom, hQ, Function.update_apply]
  split <;> rfl

/-- Above the bottom every closure is ready. -/
theorem Valid.dropLast_ready (h : P.Valid) {w : W} {t : ClosureId}
    (hb : P.bottom w = some t) {c : ClosureId} (hc : c ∈ (P.deque w).dropLast) :
    P.status c = .ready := by
  obtain ⟨hc, hne⟩ := (h.custody.mem_dropLast hb c).mp hc
  exact h.above w c ((h.custody.mem_queue w c).mpr hc) (by rw [hb]; simpa using hne.symm)

/-- What a worker finds only depends on its own deque and cache, and on the
closures at the bottom and in its hand. A bottom closure that is not being
executed may also be taken away. -/
theorem Own.frame {Q : Placement W} {w : W} {r : Role W} (h : P.Own w r)
    (hbottom : Q.bottom w = P.bottom w ∨ Q.bottom w = none ∧ P.Quiet w)
    (hdeque : ∀ t, r = .handling t → t ∈ P.deque w → t ∈ Q.deque w)
    (hhead : Q.head w = P.head w) (htail : Q.tail w = P.tail w)
    (hkept : ∀ c, P.bottom w = some c ∨ r.token = some c →
      Q.status c = P.status c ∧ Q.cache c = P.cache c) : Q.Own w r := by
  cases r <;> simp only [Own, Quiet, Runs, Returned, Role.token, hhead, htail] at * <;> grind

/-- A step of `w` that leaves alone what another worker holds. -/
theorem Own.other {Q : Placement W} {u : W} (h : P.Own u (P.role u))
    (hrole : Q.role u = P.role u) (hdeque : Q.deque u = P.deque u)
    (hhead : Q.head u = P.head u) (htail : Q.tail u = P.tail u)
    (hkept : ∀ c, P.custody.Holds u c → Q.status c = P.status c ∧ Q.cache c = P.cache c) :
    Q.Own u (Q.role u) := by
  have hbottom : Q.bottom u = P.bottom u := by rw [bottom, bottom, hdeque]
  rw [hrole]
  refine h.frame (.inl hbottom) (fun t _ ht => hdeque ▸ ht) hhead htail fun c hc => hkept c ?_
  exact hc.imp List.mem_of_getLast? id

variable [DecidableEq W]

def setRole (P : Placement W) (w : W) (r : Role W) : Placement W :=
  { P with role := Function.update P.role w r }

/-- A worker takes a step that only changes its role. -/
inductive RoleStep (P : Placement W) (w : W) : Role W → Role W → Prop
  | empty : P.bottom w = none → RoleStep P w .fetching .away
  | leave : RoleStep P w .away .fetching
  | peek (v : W) (cl : ClosureId) : v ≠ w → (P.deque v).head? = some cl →
      (∀ u, (P.role u).locks u ≠ some v) → RoleStep P w .away (.peeking v cl)
  | giveUp (v : W) (cl : ClosureId) : RoleStep P w (.peeking v cl) .away
  | readHead (v : W) (cl : ClosureId) :
      RoleStep P w (.dekking v cl none) (.dekking v cl (some (P.head v)))
  | tooLate (v : W) (cl : ClosureId) (h : ℕ) :
      RoleStep P w (.dekking v cl (some h)) (.retracting v cl)
  | inTime (v : W) (cl : ClosureId) (h : ℕ) : h + 1 < P.tail v →
      RoleStep P w (.dekking v cl (some h)) (.promoting v cl)
  | collect (t : ClosureId) : P.status t = .returning →
      RoleStep P w (.executing t) (.returning t none)
  | lockParent (t p : ClosureId) : P.idle p = false →
      RoleStep P w (.returning t none) (.returning t (some p))
  | wake (t p : ClosureId) : P.status p = .suspended →
      (∀ u t', P.role u ≠ .waking t' p) →
      RoleStep P w (.returning t (some p)) (.waking t p)
  | call : P.tail w = 1 → RoleStep P w .running .calling
  | enter (t : ClosureId) : P.bottom w = some t → (∀ u, (P.role u).locks u ≠ some w) →
      RoleStep P w .calling (.slow t)
  | back (t : ClosureId) : RoleStep P w (.slow t) .running
  | resume : (P.exc w).reached (P.tail w) = false → RoleStep P w .popping .running
  | trap (t : ClosureId) : P.bottom w = some t → (∀ u, (P.role u).locks u ≠ some w) →
      RoleStep P w .popping (.trapped t)
  | lock (t : ClosureId) : RoleStep P w (.trapped t) (.handling t)
  | relock (t t' : ClosureId) : P.bottom w = some t' →
      RoleStep P w (.handling t) (.trapped t')
  | finish : P.tail w = 1 → RoleStep P w .running .removing

/-- What a change of role from `r` to `r'` must respect. -/
structure RoleMove (P : Placement W) (w : W) (r r' : Role W) : Prop where
  own : P.Own w r'
  token : r'.token = r.token := by rfl
  raised : r'.raised = r.raised := by rfl
  guarded : r'.guarded → r.guarded := by simp [Role.guarded]
  locks : ∀ v, r'.locks w = some v →
    r.locks w = some v ∨ ∀ u, (P.role u).locks u ≠ some v := by exact fun _ h => .inl h
  waking : ∀ t p, r' = .waking t p →
    P.status p = .suspended ∧ ∀ u t', P.role u ≠ .waking t' p := by nofun
  window : ∀ t p, r' = .returning t (some p) → p < P.next ∧
    ∀ v, P.bottom v = some p → P.status p = .running → P.head v = 0 := by nofun
  peeking : ∀ v cl, r' = .peeking v cl → w ≠ v ∧ (P.deque v).head? = some cl := by nofun
  dekking : ∀ v cl h, r' = .dekking v cl (some h) → h = P.head v := by nofun
  promoting : ∀ v cl, r' = .promoting v cl → P.head v + 1 ≤ P.tail v ∧
    (P.tail v = P.head v + 1 → P.role v = .popping) := by nofun
  promoted : r = .popping → ∀ u cl, P.role u = .promoting w cl → P.tail w ≠ P.head w + 1 :=
    by nofun

theorem Valid.setRole (h : P.Valid) {w : W} {r : Role W} (hr : P.RoleMove w (P.role w) r) :
    (P.setRole w r).Valid := by
  have htoken : (P.setRole w r).custody = P.custody := by
    ext <;> simp only [Placement.custody, Placement.setRole, Function.update_apply]
    grind [hr.token]
  constructor
  case custody => exact htoken ▸ h.custody
  case fresh => exact h.fresh
  case next_pos => exact h.next_pos
  case above => exact h.above
  case fast => exact h.fast
  case own =>
    intro u
    by_cases hu : u = w
    · subst hu
      have hrole : (P.setRole u r).role u = r := Function.update_self ..
      rw [hrole]
      exact hr.own.frame (.inl rfl) (fun _ _ => id) rfl rfl fun _ _ => ⟨rfl, rfl⟩
    · exact (h.own u).other (Function.update_of_ne hu ..) rfl rfl rfl fun _ _ => ⟨rfl, rfl⟩
  all_goals
    obtain ⟨-, -, _, _, _, _, _, _, _, _, _⟩ := hr
    simp only [Placement.setRole, Function.update_apply]
  case waking | waking_unique | window =>
    grind [h.waking, h.waking_unique, h.window, bottom]
  all_goals
    grind [h.locks_unique, h.exception, h.peeking, h.raised, h.dekking, h.promoting, Role.raised]

omit [DecidableEq W] in
theorem Valid.roleMove (h : P.Valid) {w : W} {r r' : Role W} (hw : P.role w = r)
    (hs : P.RoleStep w r r') : P.RoleMove w r r' := by
  have hown := h.own w
  rw [hw] at hown
  cases hs with
  | empty hb => exact { own := by simp [Own, Quiet, hb] }
  | leave => exact { own := fun b hb => .inl (hown b hb) }
  | peek v cl hne htop hfree =>
    exact {
      own := hown
      locks := fun _ hv => .inr (Option.some.inj hv ▸ hfree)
      peeking := by grind }
  | giveUp v cl => exact { own := hown, locks := nofun }
  | readHead v cl => exact { own := hown, dekking := by grind }
  | tooLate v cl k => exact { own := hown }
  | inTime v cl k hlt =>
    have := h.dekking w v cl k hw
    exact { own := hown, promoting := by grind }
  | collect t ht => exact { own := ⟨hown.1, ht⟩ }
  | lockParent t p hp =>
    exact {
      own := hown
      window := by have := h.fast; have := h.fresh p; grind }
  | wake t p hp hfree => exact { own := hown, waking := by grind }
  | call ht =>
    obtain ⟨b, hb, hle⟩ := hown
    exact { own := ⟨b, hb, by omega, ht⟩ }
  | enter t hb hfree =>
    obtain ⟨b, hr, hle⟩ := hown
    obtain rfl : b = t := Option.some.inj (hr.1.symm.trans hb)
    exact { own := ⟨hr, hle⟩, locks := fun _ hv => .inr (Option.some.inj hv ▸ hfree) }
  | back t => exact { own := ⟨t, hown.1, by have := hown.2; omega⟩, locks := nofun }
  | resume he =>
    have hexc := h.exception w
    have := h.raised
    have hraised : ∀ u cl, P.role u = .promoting w cl → P.exc w ≠ .slot (P.head w) :=
      fun u cl hu => (h.raised u w cl (by rw [hu]; rfl)).2.2.2
    rw [hw] at hexc
    obtain ⟨ht, b, hb⟩ := hown
    have hexc := hexc trivial
    refine { own := ⟨b, ?_⟩, promoted := ?_ } <;> grind [ExceptionPointer.reached, Returned]
  | trap t hb hfree =>
    exact {
      own := by grind [Own, Runs, Returned]
      locks := fun _ hv => .inr (Option.some.inj hv ▸ hfree)
      promoted := by grind [Role.locks] }
  | lock t =>
    have := List.mem_of_getLast? (l := P.deque w) (a := t)
    exact {
      own := by grind [Own, Runs, Returned, bottom] }
  | relock t t' hb =>
    exact {
      own := by grind [Own, Runs, Returned] }
  | finish ht =>
    obtain ⟨b, hb, hle⟩ := hown
    exact { own := ⟨b, hb, by omega, ht⟩ }

end Placement

end Cilk
