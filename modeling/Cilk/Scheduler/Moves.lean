import Cilk.Scheduler.Placement

/-!
# Moves of placements

The steps of the scheduler that change a deque, a cache or the status of a
closure, as far as placements see them. Each is named for the function of
`runtime/sched.c` it is part of, and each keeps `Placement.Valid`.

The proofs go clause by clause. `hcustody` says which move of the custody of
closures the step is; `own` is shown for the worker that moves, and for the
others by `Own.other`, as nothing of theirs changes. What is left falls into
two groups: the clauses about bottoms and the parents of returning children,
and those about thieves, locks and exception pointers.
-/

namespace Cilk

namespace Placement

variable {W : Type} {P : Placement W} [DecidableEq W]

/-! ## Moves that change the deques and the closures -/

/-- `deque_xtract_bottom` by the scheduler. -/
def fetch (P : Placement W) (w : W) (t : ClosureId) : Placement W :=
  { P with
    deque := Function.update P.deque w (P.deque w).dropLast
    home := Function.update P.home t none
    role := Function.update P.role w (.executing t) }

/-- A thief takes a ready closure. -/
def stealReady (P : Placement W) (w v : W) (cl : ClosureId) : Placement W :=
  { P with
    deque := Function.update P.deque v (P.deque v).tail
    home := Function.update P.home cl none
    role := Function.update P.role w (.executing cl) }

/-- A thief raises the exception pointer. -/
def raise (P : Placement W) (w v : W) (cl : ClosureId) : Placement W :=
  { P with
    exc := Function.update P.exc v (P.exc v).increment
    role := Function.update P.role w (.dekking v cl none) }

/-- A thief lowers the exception pointer again. -/
def retract (P : Placement W) (w v : W) : Placement W :=
  { P with
    exc := Function.update P.exc v (P.exc v).decrement
    role := Function.update P.role w .away }

/-- A thief promotes a child and detaches the parent `cl`. -/
def promote (P : Placement W) (w v : W) (cl : ClosureId) : Placement W :=
  { P with
    status := Function.update P.status P.next .running
    home := Function.update (Function.update P.home P.next (some v)) cl none
    cache := Function.update P.cache P.next (some v)
    magic := Function.update P.magic P.next true
    idle := Function.update P.idle P.next true
    next := P.next + 1
    deque := Function.update P.deque v (P.deque v ++ [P.next]).tail
    head := Function.update P.head v (P.head v + 1)
    role := Function.update P.role w (.detached cl P.next) }

/-- The parent of a promoted child becomes ready, in the hand of the thief. -/
def finishPromote (P : Placement W) (w : W) (p : ClosureId) : Placement W :=
  { P with
    status := Function.update P.status p .ready
    cache := Function.update P.cache p none
    idle := Function.update P.idle p false
    role := Function.update P.role w (.executing p) }

/-- An aborting inlet promotes a child of `t`, which stays in the deque. -/
def detach (P : Placement W) (w : W) (t : ClosureId) : Placement W :=
  { P with
    status := Function.update (Function.update P.status P.next .running) t .ready
    home := Function.update P.home P.next (some w)
    cache := Function.update (Function.update P.cache P.next (some w)) t none
    magic := Function.update P.magic P.next true
    idle := Function.update (Function.update P.idle P.next true) t false
    next := P.next + 1
    deque := Function.update P.deque w (P.deque w ++ [P.next])
    head := Function.update P.head w (P.head w + 1) }

/-- An inlet comes or goes. -/
def setIdle (P : Placement W) (c : ClosureId) (b : Bool) : Placement W :=
  { P with idle := Function.update P.idle c b }

/-- `signal_immediate_exception`. -/
def signal (P : Placement W) (v : W) : Placement W :=
  { P with exc := Function.update P.exc v .infinity }

/-- `abort_ready_closure`, with outstanding children. -/
def abortSuspend (P : Placement W) (w : W) (t : ClosureId) : Placement W :=
  { P with
    status := Function.update P.status t .suspended
    role := Function.update P.role w .fetching }

/-- `abort_ready_closure`, without. -/
def abortReturn (P : Placement W) (t : ClosureId) : Placement W :=
  { P with status := Function.update P.status t .returning }

/-- `setup_for_execution`. -/
def setup (P : Placement W) (w : W) (t : ClosureId) : Placement W :=
  { P with
    status := Function.update P.status t .running
    cache := Function.update P.cache t (some w)
    head := Function.update P.head w 0
    tail := Function.update P.tail w 1
    exc := Function.update P.exc w (.slot 0)
    role := Function.update P.role w (.starting t) }

/-- `deque_add_bottom` by the scheduler. -/
def insert (P : Placement W) (w : W) (t : ClosureId) : Placement W :=
  { P with
    deque := Function.update P.deque w (P.deque w ++ [t])
    home := Function.update P.home t (some w)
    role := Function.update P.role w .running }

/-- `Closure_destroy`, at the end of `Closure_return`. -/
def destroy (P : Placement W) (w : W) (c : ClosureId) : Placement W :=
  { P with
    magic := Function.update P.magic c false
    role := Function.update P.role w .fetching }

/-- `Closure_return` returns its parent, which a provably good steal made
ready. -/
def wakeUp (P : Placement W) (w : W) (c p : ClosureId) : Placement W :=
  { P with
    status := Function.update P.status p .ready
    cache := Function.update P.cache p none
    magic := Function.update P.magic c false
    role := Function.update P.role w (.executing p) }

/-- A frame is pushed. -/
def push (P : Placement W) (w : W) : Placement W :=
  { P with tail := Function.update P.tail w (P.tail w + 1) }

/-- A frame is popped. -/
def pop (P : Placement W) (w : W) (r : Role W) : Placement W :=
  { P with
    tail := Function.update P.tail w (P.tail w - 1)
    role := Function.update P.role w r }

/-- The bottom closure `t` stops being executed, and stays in the deque. -/
def stop (P : Placement W) (w : W) (t : ClosureId) (e : ExceptionPointer) (r : Role W) :
    Placement W :=
  { P with
    status := Function.update P.status t .returning
    exc := Function.update P.exc w e
    role := Function.update P.role w r }

/-- `Closure_suspend` of the bottom closure. -/
def suspend (P : Placement W) (w : W) (t : ClosureId) (e : ExceptionPointer) (r : Role W) :
    Placement W :=
  { P with
    status := Function.update P.status t .suspended
    deque := Function.update P.deque w (P.deque w).dropLast
    home := Function.update P.home t none
    exc := Function.update P.exc w e
    role := Function.update P.role w r }

/-- The handler leaves the bottom closure as it is. -/
def handled (P : Placement W) (w : W) (e : ExceptionPointer) (r : Role W) : Placement W :=
  { P with
    exc := Function.update P.exc w e
    role := Function.update P.role w r }

/-- The root closure is freed. -/
def remove (P : Placement W) (w : W) (t : ClosureId) : Placement W :=
  { P with
    deque := Function.update P.deque w (P.deque w).dropLast
    home := Function.update P.home t none
    magic := Function.update P.magic t false
    role := Function.update P.role w .fetching }

section Moves

variable {w v : W} {t : ClosureId}

/-- The worker takes the bottom of its deque into its hand. No thief has the
deque locked, so none can be in the middle of a steal from it. -/
theorem Valid.fetch (h : P.Valid) (hw : P.role w = .fetching) (hb : P.bottom w = some t)
    (hfree : ∀ u, u ≠ w → (P.role u).locks u ≠ some w) : (P.fetch w t).Valid := by
  have hcustody : (P.fetch w t).custody = P.custody.take w w t (P.deque w).dropLast := by
    ext <;> simp only [Custody.take, Placement.custody, Placement.fetch, Function.update_apply]
    grind [Role.token]
  have hbottom : ∀ u, (P.fetch w t).bottom u = _ := bottom_update rfl
  -- what was above the bottom is ready, so the worker is quiet afterwards
  have hready := @Valid.dropLast_ready _ _ h w t hb
  have hlast : ∀ b, (P.deque w).dropLast.getLast? = some b → P.status b = .ready :=
    fun b hb => hready (List.mem_of_getLast? hb)
  have hthief := h.no_thief hfree
  have hown := h.own w
  rw [hw] at hown
  generalize (P.deque w).dropLast.getLast? = b' at hbottom hlast
  constructor
  case custody => exact hcustody ▸ h.custody.takeBottom (by simp [Placement.custody, hw, Role.token]) hb
  case fresh => exact h.fresh
  case next_pos => exact h.next_pos
  case own =>
    intro u
    by_cases hu : u = w
    · subst hu
      have hrole : (P.fetch u t).role u = .executing t := Function.update_self ..
      rw [hrole]
      simp only [Own, Quiet, hbottom, if_pos] at *
      exact ⟨hlast, hown t hb⟩
    · exact (h.own u).other (Function.update_of_ne hu ..) (Function.update_of_ne hu ..) rfl rfl
        fun _ _ => ⟨rfl, rfl⟩
  all_goals
    try simp only [hbottom]
    simp only [Placement.fetch, Function.update_apply]
  case above | fast | waking | waking_unique | window =>
    have hwindow := h.window
    have hfast := h.fast
    grind [h.above, h.waking, h.waking_unique]
  all_goals
    have hpeeking := h.peeking
    have hraised := h.raised
    have hdekking := h.dekking
    have hpromoting := h.promoting
    grind [h.locks_unique, h.exception, Role.locks, Role.guarded, Role.raised]

omit [DecidableEq W] in
/-- Whoever runs the bottom of its deque, and has not locked the deque, is in
a role where its exception pointer has its meaning. -/
theorem Valid.guarded_of_running (h : P.Valid) {cl : ClosureId} (hb : P.bottom v = some cl)
    (hs : P.status cl = .running) (hl : (P.role v).locks v ≠ some v) : (P.role v).guarded := by
  have hown := h.own v
  cases hr : P.role v <;> simp only [hr, Own, Quiet, Role.guarded, Role.locks] at * <;> grind

/-- The thief holds the lock of the deque, and the ready closure on top passes
to its hand. -/
theorem Valid.stealReady (h : P.Valid) (hw : P.role w = .peeking v t)
    (hs : P.status t = .ready) : (P.stealReady w v t).Valid := by
  obtain ⟨hwv, htop⟩ := h.peeking w v t hw
  obtain ⟨l, hl⟩ := List.head?_eq_some_iff.mp htop
  have hcustody : (P.stealReady w v t).custody = P.custody.take w v t (P.deque v).tail := by
    ext <;> simp only [Custody.take, Placement.custody, Placement.stealReady,
      Function.update_apply]
    grind [Role.token]
  have hbottom : ∀ u, (P.stealReady w v t).bottom u = _ := bottom_update rfl
  have hlocks : ∀ u, (P.role u).locks u = some v → u = w := fun u hu =>
    h.locks_unique u w v hu (by rw [hw]; rfl)
  have hown := h.own w
  rw [hw] at hown
  -- the bottom stays, unless the deque held the stolen closure alone
  have htail : ∀ c, c ∈ (P.deque v).tail → c ∈ P.deque v ∧ P.bottom v = (P.deque v).tail.getLast? := by
    rw [bottom, hl]
    intro c hc
    cases l with
    | nil => cases hc
    | cons d ds => exact ⟨List.mem_cons_of_mem _ hc, List.getLast?_cons_cons⟩
  have hlast : (P.deque v).tail.getLast? = P.bottom v ∨
      (P.deque v).tail.getLast? = none ∧ P.bottom v = some t := by
    rw [bottom, hl]
    cases l with
    | nil => exact .inr ⟨rfl, rfl⟩
    | cons d ds => exact .inl List.getLast?_cons_cons.symm
  generalize hb' : (P.deque v).tail.getLast? = b' at hbottom hlast htail
  constructor
  case custody => exact hcustody ▸ h.custody.takeTop (by simp [Placement.custody, hw, Role.token]) htop
  case fresh => exact h.fresh
  case next_pos => exact h.next_pos
  case own =>
    intro u
    by_cases hu : u = w
    · subst hu
      have hrole : (P.stealReady u v t).role u = .executing t := Function.update_self ..
      rw [hrole]
      simp only [Own, Quiet, hbottom, hwv, if_false] at *
      exact ⟨hown, .inl hs⟩
    · have hrole : (P.stealReady w v t).role u = P.role u := Function.update_of_ne hu ..
      rw [hrole]
      by_cases huv : u = v
      · subst huv
        refine (h.own u).frame ?_ ?_ rfl rfl fun _ _ => ⟨rfl, rfl⟩
        · rw [hbottom, if_pos rfl]
          exact hlast.imp id fun hn => ⟨hn.1, fun b hb => by grind⟩
        · intro c hc
          exact absurd (hlocks u (by rw [hc]; rfl)) hu
      · refine (h.own u).frame (.inl ?_) ?_ rfl rfl fun _ _ => ⟨rfl, rfl⟩
        · rw [hbottom, if_neg huv]
        · intro c _ hc
          rwa [show (P.stealReady w v t).deque u = P.deque u from Function.update_of_ne huv ..]
  all_goals
    try simp only [hbottom]
    simp only [Placement.stealReady, Function.update_apply]
  case above | fast | waking | waking_unique | window =>
    have hwindow := h.window
    have hfast := h.fast
    grind [h.above, h.waking, h.waking_unique]
  all_goals
    have hpeeking := h.peeking
    have hraised := h.raised
    have hdekking := h.dekking
    have hpromoting := h.promoting
    grind [h.locks_unique, h.exception, Role.locks, Role.guarded, Role.raised]

/-- The victim runs the closure on top, and the thief that holds the lock of its
deque is the only one that raises the pointer. -/
theorem Valid.raise (h : P.Valid) (hw : P.role w = .peeking v t)
    (hs : P.status t = .running) : (P.raise w v t).Valid := by
  obtain ⟨hwv, htop⟩ := h.peeking w v t hw
  have hlocks : ∀ u, (P.role u).locks u = some v → u = w := fun u hu =>
    h.locks_unique u w v hu (by rw [hw]; rfl)
  have hraised : ∀ u cl, (P.role u).raised ≠ some (v, cl) := fun u cl hr => by
    have := hlocks u (Role.locks_of_raised hr)
    rw [this, hw] at hr
    cases hr
  -- a closure that runs is the bottom, so the top is the whole deque
  have hb : P.bottom v = some t := by
    by_contra hb
    have := h.above v t (List.mem_of_head? htop) hb
    rw [hs] at this
    cases this
  have hdeque : P.deque v = [t] := by
    obtain ⟨l, hl⟩ := List.head?_eq_some_iff.mp htop
    obtain ⟨l', hl'⟩ := List.getLast?_eq_some_iff.mp hb
    have hnd := h.custody.nodup v
    change (P.deque v).Nodup at hnd
    cases l' with
    | nil => exact hl'
    | cons d ds => grind
  have hguard := h.guarded_of_running hb hs fun hl => hwv (hlocks v hl).symm
  have hexc := h.exception v hguard
  have hown := h.own w
  rw [hw] at hown
  have hcustody : (P.raise w v t).custody = P.custody := by
    ext <;> simp only [Placement.custody, Placement.raise, Function.update_apply]
    grind [Role.token]
  constructor
  case custody => exact hcustody ▸ h.custody
  case fresh => exact h.fresh
  case next_pos => exact h.next_pos
  case above => exact h.above
  case fast => exact h.fast
  case own =>
    intro u
    by_cases hu : u = w
    · subst hu
      have hrole : (P.raise u v t).role u = .dekking v t none := Function.update_self ..
      rw [hrole]
      exact hown
    · exact (h.own u).other (Function.update_of_ne hu ..) rfl rfl rfl fun _ _ => ⟨rfl, rfl⟩
  all_goals
    have hbottom : ∀ u, (P.raise w v t).bottom u = P.bottom u := fun _ => rfl
    try simp only [hbottom]
    simp only [Placement.raise, Function.update_apply]
  case waking | waking_unique | window =>
    have hwindow := h.window
    grind [h.waking, h.waking_unique]
  all_goals
    have hpeeking := h.peeking
    have hraised := h.raised
    have hdekking := h.dekking
    have hpromoting := h.promoting
    grind [h.locks_unique, h.exception, Role.locks, Role.guarded, Role.raised,
      ExceptionPointer.increment]

/-- The thief lowers the pointer by what it had raised it. -/
theorem Valid.retract (h : P.Valid) (hw : P.role w = .retracting v t) :
    (P.retract w v).Valid := by
  obtain ⟨hwv, hdeque, hs, hne⟩ := h.raised w v t (by rw [hw]; rfl)
  have hlocks : ∀ u, (P.role u).locks u = some v → u = w := fun u hu =>
    h.locks_unique u w v hu (by rw [hw]; rfl)
  have hraised : ∀ u cl, (P.role u).raised = some (v, cl) → u = w := fun u cl hr =>
    hlocks u (Role.locks_of_raised hr)
  have hb : P.bottom v = some t := by rw [bottom, hdeque]; rfl
  have hguard := h.guarded_of_running hb hs fun hl => hwv (hlocks v hl).symm
  have hexc := h.exception v hguard
  have hown := h.own w
  rw [hw] at hown
  have hcustody : (P.retract w v).custody = P.custody := by
    ext <;> simp only [Placement.custody, Placement.retract, Function.update_apply]
    grind [Role.token]
  constructor
  case custody => exact hcustody ▸ h.custody
  case fresh => exact h.fresh
  case next_pos => exact h.next_pos
  case above => exact h.above
  case fast => exact h.fast
  case own =>
    intro u
    by_cases hu : u = w
    · subst hu
      have hrole : (P.retract u v).role u = .away := Function.update_self ..
      rw [hrole]
      exact hown
    · exact (h.own u).other (Function.update_of_ne hu ..) rfl rfl rfl fun _ _ => ⟨rfl, rfl⟩
  all_goals
    have hbottom : ∀ u, (P.retract w v).bottom u = P.bottom u := fun _ => rfl
    try simp only [hbottom]
    simp only [Placement.retract, Function.update_apply]
  case waking | waking_unique | window =>
    have hwindow := h.window
    grind [h.waking, h.waking_unique]
  all_goals
    have hpeeking := h.peeking
    have hraised := h.raised
    have hdekking := h.dekking
    have hpromoting := h.promoting
    grind [h.locks_unique, h.exception, Role.locks, Role.guarded, Role.raised,
      ExceptionPointer.decrement]

/-- The frame above the head becomes a closure that runs on the victim's cache,
in the place of its parent. -/
theorem Valid.promote (h : P.Valid) (hw : P.role w = .promoting v t) :
    (P.promote w v t).Valid := by
  obtain ⟨hwv, hdeque, hs, hne⟩ := h.raised w v t (by rw [hw]; rfl)
  have hlocks : ∀ u, (P.role u).locks u = some v → u = w := fun u hu =>
    h.locks_unique u w v hu (by rw [hw]; rfl)
  have hraised : ∀ u cl, (P.role u).raised = some (v, cl) → u = w := fun u cl hr =>
    hlocks u (Role.locks_of_raised hr)
  have hb : P.bottom v = some t := by rw [bottom, hdeque]; rfl
  have hexc := h.exception v (h.guarded_of_running hb hs fun hl => hwv (hlocks v hl).symm)
  have hpr := h.promoting w v t hw
  -- nobody knows the new closure yet
  have hnext := h.fresh P.next le_rfl
  have hfree : ∀ u, ¬ P.custody.Holds u P.next := fun u => h.next_not_held
  have htn : t ≠ P.next := by
    rintro rfl
    exact hfree v (.inl (List.mem_of_getLast? hb))
  have hwaking : ∀ u c, P.role u ≠ .waking c P.next := fun u c hu => by
    have hlive := h.custody.parked_live _ (h.waking u c P.next hu)
    exact absurd hlive (by simp [Placement.custody, hnext.1])
  have hparked : P.status P.next ≠ .suspended := fun hp => by
    have hlive := h.custody.parked_live P.next hp
    exact absurd hlive (by simp [Placement.custody, hnext.1])
  have hown := h.own w
  rw [hw] at hown
  have hnil : (P.deque v ++ [P.next]).tail = [P.next] := by rw [hdeque]; rfl
  have hcustody : (P.promote w v t).custody =
      (P.custody.create v P.next).take w v t ((P.custody.create v P.next).queue v).tail := by
    ext <;> simp only [Custody.take, Custody.create, Placement.custody, Placement.promote,
      Function.update_apply] <;> grind [Role.token]
  have hbottom : ∀ u, (P.promote w v t).bottom u = _ := bottom_update rfl
  rw [hnil, List.getLast?_singleton] at hbottom
  constructor
  case custody =>
    rw [hcustody]
    refine (h.custody.create ?_).takeTop ?_ ?_
    · simp [Placement.custody, hnext.1]
    · simp [Custody.create, Placement.custody, hw, Role.token]
    · simp [Custody.create, Placement.custody, hdeque]
  case own =>
    intro u
    by_cases hu : u = w
    · subst hu
      have hrole : (P.promote u v t).role u = .detached t P.next := Function.update_self ..
      have hstatus : (P.promote u v t).status t = .running := by
        simpa [Placement.promote, htn] using hs
      rw [hrole]
      refine ⟨fun b hb => ?_, hstatus⟩
      rw [hbottom, if_neg hwv] at hb
      have hbn : b ≠ P.next := by
        rintro rfl
        exact hfree u (.inl (List.mem_of_getLast? hb))
      simpa [Placement.promote, hbn] using hown b hb
    · -- the victim goes on in its role, with the child in the place of the parent
      by_cases huv : u = v
      · subst huv
        have hown := h.own u
        have hrole : (P.promote w u t).role u = P.role u := Function.update_of_ne hu ..
        rw [hrole]
        have hruns : (P.promote w u t).Runs u P.next := by
          refine ⟨by rw [hbottom, if_pos rfl], ?_, ?_⟩ <;> simp [Placement.promote]
        have hhead : (P.promote w u t).head u = P.head u + 1 := Function.update_self ..
        have htail : (P.promote w u t).tail u = P.tail u := rfl
        have hlock : (P.role u).locks u ≠ some u := fun hl => hu (hlocks u hl)
        generalize P.promote w u t = Q at hruns hhead htail
        cases hr : P.role u <;>
          simp only [hr, Own, Quiet, Runs, Returned, Role.locks] at hown hruns hlock hpr ⊢ <;> grind
      · refine (h.own u).other (Function.update_of_ne hu ..) (Function.update_of_ne huv ..)
          (Function.update_of_ne huv ..) rfl fun c hc => ?_
        have hcn : c ≠ P.next := by
          rintro rfl
          exact hfree u hc
        exact ⟨Function.update_of_ne hcn .., Function.update_of_ne hcn ..⟩
  all_goals
    try simp only [hbottom]
    simp only [Placement.promote, Function.update_apply, hnil]
  case fresh | next_pos | above | fast | waking | waking_unique | window =>
    have hwindow := h.window
    have hfast := h.fast
    have hmem : ∀ u b, P.bottom u = some b → b ≠ P.next := by
      rintro u b hb rfl
      exact hfree u (.inl (List.mem_of_getLast? hb))
    have hmem' : ∀ u c, c ∈ P.deque u → c ≠ P.next := by
      rintro u c hc rfl
      exact hfree u (.inl hc)
    have hpos := h.next_pos
    have hfresh := h.fresh
    grind [h.above, h.waking, h.waking_unique]
  all_goals
    have hpeeking := h.peeking
    have hraised := h.raised
    have hdekking := h.dekking
    have hpromoting := h.promoting
    grind [h.locks_unique, h.exception, Role.locks, Role.guarded, Role.raised]

omit [DecidableEq W] in
/-- What is in a hand is in no deque. -/
theorem Valid.token_not_mem (h : P.Valid) {c : ClosureId} (hc : (P.role w).token = some c)
    (u : W) : c ∉ P.deque u := fun hm => h.custody.not_hand_of_mem hm hc

/-- The parent is in the thief's hand when it becomes ready. -/
theorem Valid.finishPromote (h : P.Valid) {c : ClosureId} (hw : P.role w = .detached t c) :
    (P.finishPromote w t).Valid := by
  have htoken : (P.role w).token = some t := by rw [hw]; rfl
  have hmem := h.token_not_mem htoken
  have hbot : ∀ u, P.bottom u ≠ some t := fun u hb => hmem u (List.mem_of_getLast? hb)
  have hown := h.own w
  rw [hw] at hown
  have hlive := h.custody.live_of_hand w t htoken
  have hcustody : (P.finishPromote w t).custody = P.custody := by
    have hlive := hlive.2
    ext <;> simp only [Placement.custody, Placement.finishPromote, Function.update_apply] at * <;>
      grind [Role.token]
  constructor
  case custody => exact hcustody ▸ h.custody
  case next_pos => exact h.next_pos
  case own =>
    intro u
    by_cases hu : u = w
    · subst hu
      have hrole : (P.finishPromote u t).role u = .executing t := Function.update_self ..
      rw [hrole]
      refine ⟨fun b hb => ?_, .inl (Function.update_self ..)⟩
      have hbt : b ≠ t := fun he => hbot u (he ▸ hb)
      simpa [Placement.finishPromote, hbt] using hown.1 b hb
    · refine (h.own u).other (Function.update_of_ne hu ..) rfl rfl rfl fun c hc => ?_
      have hct : c ≠ t := fun he => hu (h.custody.holds_unique hc (he ▸ .inr htoken))
      exact ⟨Function.update_of_ne hct .., Function.update_of_ne hct ..⟩
  all_goals
    have hbottom : ∀ u, (P.finishPromote w t).bottom u = P.bottom u := fun _ => rfl
    try simp only [hbottom]
    simp only [Placement.finishPromote, Function.update_apply]
  case fresh | above | fast | waking | waking_unique | window =>
    have hwindow := h.window
    have hfast := h.fast
    have hfresh := h.fresh
    obtain ⟨hlive, hparked⟩ : P.magic t = true ∧ P.status t ≠ .suspended := hlive
    grind [h.above, h.waking, h.waking_unique]
  all_goals
    have hpeeking := h.peeking
    have hraised := h.raised
    have hdekking := h.dekking
    have hpromoting := h.promoting
    grind [h.locks_unique, h.exception, Role.locks, Role.guarded, Role.raised]

/-- The closure that runs at the bottom gets ready above the child, which goes
on running on the cache. -/
theorem Valid.detach (h : P.Valid) (hw : P.role w = .handling t) (hs : P.status t = .running)
    (hidle : P.idle t = false) (htop : P.head w + 1 ≠ P.tail w) : (P.detach w t).Valid := by
  have hown := h.own w
  rw [hw] at hown
  obtain ⟨htm, htail, b, hbot⟩ := hown
  -- the closure runs, so it is the bottom; it has an inlet, so it is not fast
  have hb : P.bottom w = some t := by
    by_contra hb
    have hready := h.above w t htm hb
    rw [hs] at hready
    cases hready
  have hhead : P.head w = 0 := by
    have hfast := h.fast w t hb hs
    rw [hidle] at hfast
    by_contra hne
    exact absurd (hfast (by omega)).1 (by decide)
  have hcache : P.cache t = some w := by grind [Runs, Returned]
  -- the worker has its deque locked, so nobody is stealing from it
  have hthief := h.no_thief fun u hu hl => hu (h.locks_unique u w w hl (by rw [hw]; rfl))
  have hnext := h.fresh P.next le_rfl
  have hfree : ∀ u, ¬ P.custody.Holds u P.next := fun u => h.next_not_held
  have htn : t ≠ P.next := by
    rintro rfl
    exact hfree w (.inl htm)
  have hparked : P.status P.next ≠ .suspended := fun hp => by
    have hlive := h.custody.parked_live P.next hp
    exact absurd hlive (by simp [Placement.custody, hnext.1])
  have hcustody : (P.detach w t).custody = P.custody.create w P.next := by
    ext <;> simp only [Custody.create, Placement.custody, Placement.detach,
      Function.update_apply] <;> grind
  have hbottom : ∀ u, (P.detach w t).bottom u = _ := bottom_update rfl
  simp only [List.getLast?_concat] at hbottom
  constructor
  case custody =>
    rw [hcustody]
    exact h.custody.create (by simp [Placement.custody, hnext.1])
  case own =>
    intro u
    by_cases hu : u = w
    · subst hu
      have hrole : (P.detach u t).role u = .handling t := hw
      rw [hrole]
      refine ⟨?_, htail, P.next, .inl ⟨⟨by rw [hbottom, if_pos rfl], ?_, ?_⟩, ?_⟩⟩
      · simp [Placement.detach, htm]
      · simp [Placement.detach, htn.symm]
      · simp [Placement.detach, htn.symm]
      · simp only [Placement.detach, Function.update_self]
        omega
    · refine (h.own u).other rfl (Function.update_of_ne hu ..) (Function.update_of_ne hu ..) rfl
        fun c hc => ?_
      have hct : c ≠ t := fun he => hu (h.custody.holds_unique hc (he ▸ .inl htm))
      have hcn : c ≠ P.next := by
        rintro rfl
        exact hfree u hc
      simp [Placement.detach, hct, hcn]
  all_goals
    try simp only [hbottom]
    simp only [Placement.detach, Function.update_apply]
  case fresh | next_pos | above | fast | waking | waking_unique | window =>
    have hwindow := h.window
    have hfast := h.fast
    have hmem : ∀ u b, P.bottom u = some b → b ≠ P.next := by
      rintro u b hb rfl
      exact hfree u (.inl (List.mem_of_getLast? hb))
    have hmem' : ∀ u c, c ∈ P.deque u → c ≠ P.next := by
      rintro u c hc rfl
      exact hfree u (.inl hc)
    have hpos := h.next_pos
    have hfresh := h.fresh
    have hlive : P.magic t = true := (h.custody.holds_live (w := w) (.inl htm)).1
    grind [h.above, h.waking, h.waking_unique]
  all_goals
    have hpeeking := h.peeking
    have hraised := h.raised
    have hdekking := h.dekking
    have hpromoting := h.promoting
    have hne := fun u cl => Role.ne_of_not_raised (hthief u cl).1
    have hfar : ∀ u v, (P.role u).raised ≠ some (v, t) := fun u v hr => by
      have hvt : t ∈ P.deque v := by simp [(h.raised u v t hr).2.1]
      exact (hthief u t).1 (h.custody.queue_unique hvt htm ▸ hr)
    grind [h.locks_unique, h.exception, Role.locks, Role.guarded, Role.raised]

omit [DecidableEq W] in
/-- A closure may get busy where it does not run as a fast closure. -/
theorem Valid.setIdle (h : P.Valid) {c : ClosureId} {b : Bool} (hc : b = true ∨ c < P.next)
    (hb : b = true ∨ ∀ v, P.bottom v = some c → P.status c = .running → P.head v = 0) :
    (P.setIdle c b).Valid := by
  constructor
  case custody => exact h.custody
  case next_pos => exact h.next_pos
  case own => exact fun u => (h.own u).other rfl rfl rfl rfl fun _ _ => ⟨rfl, rfl⟩
  case fresh | fast =>
    have hbottom : ∀ u, (P.setIdle c b).bottom u = P.bottom u := fun _ => rfl
    try simp only [hbottom]
    simp only [Placement.setIdle, Function.update_apply]
    have hfresh := h.fresh
    have hfast := h.fast
    grind
  case above => exact h.above
  case waking => exact h.waking
  case waking_unique => exact h.waking_unique
  case window => exact h.window
  case locks_unique => exact h.locks_unique
  case exception => exact h.exception
  case peeking => exact h.peeking
  case raised => exact h.raised
  case dekking => exact h.dekking
  case promoting => exact h.promoting

omit [DecidableEq W] in
/-- A closure that is idle stays so, or `setIdle` changes nothing. -/
theorem Valid.setIdle_of_imp (h : P.Valid) {c : ClosureId} {b : Bool}
    (hb : P.idle c = true → b = true) : (P.setIdle c b).Valid := by
  cases b
  case false =>
    have hc : P.idle c = false := by simpa using hb
    have hsame : P.setIdle c false = P := by
      rw [Placement.setIdle, ← hc, Function.update_eq_self]
    rw [hsame]
    exact h
  case true => exact h.setIdle (.inl rfl) (.inl rfl)

/-- An exception pointer at infinity is above every head. -/
theorem Valid.signal (h : P.Valid) : (P.signal v).Valid := by
  constructor
  case custody => exact h.custody
  case fresh => exact h.fresh
  case next_pos => exact h.next_pos
  case own => exact fun u => (h.own u).other rfl rfl rfl rfl fun _ _ => ⟨rfl, rfl⟩
  case above => exact h.above
  case fast => exact h.fast
  case waking => exact h.waking
  case waking_unique => exact h.waking_unique
  case window => exact h.window
  case locks_unique => exact h.locks_unique
  case peeking => exact h.peeking
  case dekking => exact h.dekking
  case promoting => exact h.promoting
  case exception | raised =>
    simp only [Placement.signal, Function.update_apply]
    have hraised := h.raised
    grind [h.exception]

/-- The closure leaves the worker's hand, and waits for its children. -/
theorem Valid.abortSuspend (h : P.Valid) (hw : P.role w = .executing t) :
    (P.abortSuspend w t).Valid := by
  have htoken : (P.role w).token = some t := by rw [hw]; rfl
  have hmem := h.token_not_mem htoken
  have hbot : ∀ u, P.bottom u ≠ some t := fun u hb => hmem u (List.mem_of_getLast? hb)
  have hown := h.own w
  rw [hw] at hown
  have hcustody : (P.abortSuspend w t).custody = P.custody.parkHand w t := by
    ext <;> simp only [Custody.parkHand, Placement.custody, Placement.abortSuspend,
      Function.update_apply] <;> grind [Role.token]
  constructor
  case custody => exact hcustody ▸ h.custody.parkHand htoken
  case fresh => exact h.fresh
  case next_pos => exact h.next_pos
  case own =>
    intro u
    by_cases hu : u = w
    · subst hu
      have hrole : (P.abortSuspend u t).role u = .fetching := Function.update_self ..
      rw [hrole]
      intro b hb
      have hbt : b ≠ t := fun he => hbot u (he ▸ hb)
      exact .inl (by simpa [Placement.abortSuspend, hbt] using hown.1 b hb)
    · refine (h.own u).other (Function.update_of_ne hu ..) rfl rfl rfl fun c hc => ?_
      have hct : c ≠ t := fun he => hu (h.custody.holds_unique hc (he ▸ .inr htoken))
      exact ⟨Function.update_of_ne hct .., rfl⟩
  all_goals
    have hbottom : ∀ u, (P.abortSuspend w t).bottom u = P.bottom u := fun _ => rfl
    try simp only [hbottom]
    simp only [Placement.abortSuspend, Function.update_apply]
  case above | fast | waking | waking_unique | window =>
    have hwindow := h.window
    have hfast := h.fast
    grind [h.above, h.waking, h.waking_unique]
  all_goals
    have hpeeking := h.peeking
    have hraised := h.raised
    have hdekking := h.dekking
    have hpromoting := h.promoting
    grind [h.locks_unique, h.exception, Role.locks, Role.guarded, Role.raised]

/-- The closure stays in the worker's hand, and returns. -/
theorem Valid.abortReturn (h : P.Valid) (hw : P.role w = .executing t) :
    (P.abortReturn t).Valid := by
  have htoken : (P.role w).token = some t := by rw [hw]; rfl
  have hmem := h.token_not_mem htoken
  have hbot : ∀ u, P.bottom u ≠ some t := fun u hb => hmem u (List.mem_of_getLast? hb)
  have hown := h.own w
  rw [hw] at hown
  have hparked : P.status t ≠ .suspended := (h.custody.live_of_hand w t htoken).2
  have hcustody : (P.abortReturn t).custody = P.custody := by
    ext <;> simp only [Placement.custody, Placement.abortReturn, Function.update_apply]
    grind
  constructor
  case custody => exact hcustody ▸ h.custody
  case fresh => exact h.fresh
  case next_pos => exact h.next_pos
  case own =>
    intro u
    by_cases hu : u = w
    · subst hu
      have hrole : (P.abortReturn t).role u = .executing t := hw
      rw [hrole]
      refine ⟨fun b hb => ?_, .inr (Function.update_self ..)⟩
      have hbt : b ≠ t := fun he => hbot u (he ▸ hb)
      simpa [Placement.abortReturn, hbt] using hown.1 b hb
    · refine (h.own u).other rfl rfl rfl rfl fun c hc => ?_
      have hct : c ≠ t := fun he => hu (h.custody.holds_unique hc (he ▸ .inr htoken))
      exact ⟨Function.update_of_ne hct .., rfl⟩
  case waking_unique => exact h.waking_unique
  case locks_unique => exact h.locks_unique
  case exception => exact h.exception
  case peeking => exact h.peeking
  case dekking => exact h.dekking
  case promoting => exact h.promoting
  all_goals
    have hbottom : ∀ u, (P.abortReturn t).bottom u = P.bottom u := fun _ => rfl
    try simp only [hbottom]
    simp only [Placement.abortReturn, Function.update_apply]
    have hwindow := h.window
    have hfast := h.fast
    have hraised := h.raised
    grind [h.above, h.waking]

/-- A ready closure starts on an empty stack. Nothing in the worker's deque
runs, so no other closure has its cache. -/
theorem Valid.setup (h : P.Valid) (hw : P.role w = .executing t) : (P.setup w t).Valid := by
  have htoken : (P.role w).token = some t := by rw [hw]; rfl
  have hmem := h.token_not_mem htoken
  have hbot : ∀ u, P.bottom u ≠ some t := fun u hb => hmem u (List.mem_of_getLast? hb)
  have hown := h.own w
  rw [hw] at hown
  -- a thief would have found a running closure in the deque
  have hthief : ∀ u cl, (P.role u).raised ≠ some (w, cl) := fun u cl hr => by
    obtain ⟨-, hd, hs, -⟩ := h.raised u w cl hr
    rw [hown.1 cl (by rw [bottom, hd]; rfl)] at hs
    cases hs
  have hparked : P.status t ≠ .suspended := (h.custody.live_of_hand w t htoken).2
  have hcustody : (P.setup w t).custody = P.custody := by
    ext <;> simp only [Placement.custody, Placement.setup, Function.update_apply] <;>
      grind [Role.token]
  constructor
  case custody => exact hcustody ▸ h.custody
  case fresh => exact h.fresh
  case next_pos => exact h.next_pos
  case own =>
    intro u
    by_cases hu : u = w
    · subst hu
      have hrole : (P.setup u t).role u = .starting t := Function.update_self ..
      rw [hrole]
      refine ⟨fun b hb => ?_, ?_⟩
      · have hbt : b ≠ t := fun he => hbot u (he ▸ hb)
        simpa [Placement.setup, hbt] using hown.1 b hb
      · simp [Placement.setup]
    · refine (h.own u).other (Function.update_of_ne hu ..) rfl (Function.update_of_ne hu ..)
        (Function.update_of_ne hu ..) fun c hc => ?_
      have hct : c ≠ t := fun he => hu (h.custody.holds_unique hc (he ▸ .inr htoken))
      exact ⟨Function.update_of_ne hct .., Function.update_of_ne hct ..⟩
  all_goals
    have hbottom : ∀ u, (P.setup w t).bottom u = P.bottom u := fun _ => rfl
    try simp only [hbottom]
    simp only [Placement.setup, Function.update_apply]
  case above | fast | waking | waking_unique | window =>
    have hwindow := h.window
    have hfast := h.fast
    have hquiet : P.Quiet w := hown.1
    simp only [Quiet] at hquiet
    grind [h.above, h.waking, h.waking_unique]
  all_goals
    have hpeeking := h.peeking
    have hraised := h.raised
    have hdekking := h.dekking
    have hpromoting := h.promoting
    have hne := fun u cl => Role.ne_of_not_raised (hthief u cl)
    grind [h.locks_unique, h.exception, Role.locks, Role.guarded, Role.raised]

/-- The closure that was set up becomes the bottom of the deque, where no thief
has it locked. -/
theorem Valid.insert (h : P.Valid) (hw : P.role w = .starting t)
    (hfree : ∀ u, u ≠ w → (P.role u).locks u ≠ some w) : (P.insert w t).Valid := by
  have htoken : (P.role w).token = some t := by rw [hw]; rfl
  have hmem := h.token_not_mem htoken
  have hthief := h.no_thief hfree
  have hown := h.own w
  rw [hw] at hown
  obtain ⟨hquiet, hs, hc, hhead, htail⟩ := hown
  -- everything in the deque is ready, and so will be above the new bottom
  have hready : ∀ c, c ∈ P.deque w → P.status c = .ready := fun c hc => by
    by_cases hb : P.bottom w = some c
    · exact hquiet c hb
    · exact h.above w c hc hb
  have hcustody : (P.insert w t).custody = P.custody.put w t := by
    ext <;> simp only [Custody.put, Placement.custody, Placement.insert,
      Function.update_apply]
    grind [Role.token]
  have hbottom : ∀ u, (P.insert w t).bottom u = _ := bottom_update rfl
  simp only [List.getLast?_concat] at hbottom
  have hexc := h.exception w (by rw [hw]; trivial)
  constructor
  case custody => exact hcustody ▸ h.custody.put htoken
  case fresh => exact h.fresh
  case next_pos => exact h.next_pos
  case own =>
    intro u
    by_cases hu : u = w
    · subst hu
      have hrole : (P.insert u t).role u = .running := Function.update_self ..
      rw [hrole]
      exact ⟨t, ⟨by rw [hbottom, if_pos rfl], hs, hc⟩, by
        simp only [Placement.insert]
        omega⟩
    · exact (h.own u).other (Function.update_of_ne hu ..) (Function.update_of_ne hu ..) rfl rfl
        fun _ _ => ⟨rfl, rfl⟩
  all_goals
    try simp only [hbottom]
    simp only [Placement.insert, Function.update_apply]
  case above | fast | waking | waking_unique | window =>
    have hwindow := h.window
    have hfast := h.fast
    grind [h.above, h.waking, h.waking_unique]
  all_goals
    have hpeeking := h.peeking
    have hraised := h.raised
    have hdekking := h.dekking
    have hpromoting := h.promoting
    grind [h.locks_unique, h.exception, Role.locks, Role.guarded, Role.raised]

/-- A closure that has returned is in the worker's hand and nowhere else. -/
theorem Valid.destroy (h : P.Valid) {p : Option ClosureId} (hw : P.role w = .returning t p) :
    (P.destroy w t).Valid := by
  have htoken : (P.role w).token = some t := by rw [hw]; rfl
  have hown := h.own w
  rw [hw] at hown
  have hcustody : (P.destroy w t).custody = P.custody.destroyHand w t := by
    ext <;> simp only [Custody.destroyHand, Placement.custody, Placement.destroy,
      Function.update_apply] <;> grind [Role.token]
  constructor
  case custody => exact hcustody ▸ h.custody.destroyHand htoken
  case next_pos => exact h.next_pos
  case above => exact h.above
  case fast => exact h.fast
  case own =>
    intro u
    by_cases hu : u = w
    · subst hu
      have hrole : (P.destroy u t).role u = .fetching := Function.update_self ..
      rw [hrole]
      exact fun b hb => .inl (hown.1 b hb)
    · exact (h.own u).other (Function.update_of_ne hu ..) rfl rfl rfl fun _ _ => ⟨rfl, rfl⟩
  all_goals
    have hbottom : ∀ u, (P.destroy w t).bottom u = P.bottom u := fun _ => rfl
    try simp only [hbottom]
    simp only [Placement.destroy, Function.update_apply]
  case fresh | waking | waking_unique | window =>
    have hwindow := h.window
    have hfresh := h.fresh
    grind [h.waking, h.waking_unique]
  all_goals
    have hpeeking := h.peeking
    have hraised := h.raised
    have hdekking := h.dekking
    have hpromoting := h.promoting
    grind [h.locks_unique, h.exception, Role.locks, Role.guarded, Role.raised]

/-- The child is destroyed, and the parent passes to the worker's hand. -/
theorem Valid.wakeUp (h : P.Valid) {p : ClosureId} (hw : P.role w = .waking t p) :
    (P.wakeUp w t p).Valid := by
  have htoken : (P.role w).token = some t := by rw [hw]; rfl
  have hp := h.waking w t p hw
  have hown := h.own w
  rw [hw] at hown
  -- the parent is suspended, so nobody holds it
  have hfree : ∀ u, ¬ P.custody.Holds u p := fun u hu => (h.custody.holds_live hu).2 hp
  have hbot : ∀ u, P.bottom u ≠ some p := fun u hb => hfree u (.inl (List.mem_of_getLast? hb))
  have hmem : ∀ u, p ∉ P.deque u := fun u hm => hfree u (.inl hm)
  have hcustody : (P.wakeUp w t p).custody = (P.custody.destroyHand w t).unpark w p := by
    ext <;> simp only [Custody.destroyHand, Custody.unpark, Placement.custody, Placement.wakeUp,
      Function.update_apply] <;> grind [Role.token]
  constructor
  case custody =>
    rw [hcustody]
    exact (h.custody.destroyHand htoken).unpark (Function.update_self ..) hp
  case next_pos => exact h.next_pos
  case own =>
    intro u
    by_cases hu : u = w
    · subst hu
      have hrole : (P.wakeUp u t p).role u = .executing p := Function.update_self ..
      rw [hrole]
      refine ⟨fun b hb => ?_, .inl (Function.update_self ..)⟩
      have hbp : b ≠ p := fun he => hbot u (he ▸ hb)
      simpa [Placement.wakeUp, hbp] using hown.1 b hb
    · refine (h.own u).other (Function.update_of_ne hu ..) rfl rfl rfl fun c hc => ?_
      have hcp : c ≠ p := fun he => hfree u (he ▸ hc)
      exact ⟨Function.update_of_ne hcp .., Function.update_of_ne hcp ..⟩
  all_goals
    have hbottom : ∀ u, (P.wakeUp w t p).bottom u = P.bottom u := fun _ => rfl
    try simp only [hbottom]
    simp only [Placement.wakeUp, Function.update_apply]
  case fresh | above | fast | waking | waking_unique | window =>
    have hwindow := h.window
    have hfast := h.fast
    have hfresh := h.fresh
    grind [h.above, h.waking, h.waking_unique]
  all_goals
    have hpeeking := h.peeking
    have hraised := h.raised
    have hdekking := h.dekking
    have hpromoting := h.promoting
    grind [h.locks_unique, h.exception, Role.locks, Role.guarded, Role.raised]

/-- The tail goes up by one, which leaves every frame a thief could take where
it is. -/
theorem Valid.push (h : P.Valid) (hw : P.role w = .running) : (P.push w).Valid := by
  have hown := h.own w
  rw [hw] at hown
  obtain ⟨b, hb, hle⟩ := hown
  constructor
  case custody => exact h.custody
  case fresh => exact h.fresh
  case next_pos => exact h.next_pos
  case above => exact h.above
  case fast => exact h.fast
  case waking => exact h.waking
  case waking_unique => exact h.waking_unique
  case window => exact h.window
  case locks_unique => exact h.locks_unique
  case exception => exact h.exception
  case peeking => exact h.peeking
  case raised => exact h.raised
  case dekking => exact h.dekking
  case own =>
    intro u
    by_cases hu : u = w
    · subst hu
      have hrole : (P.push u).role u = .running := hw
      rw [hrole]
      refine ⟨b, hb, ?_⟩
      simp only [Placement.push, Function.update_self]
      omega
    · exact (h.own u).other rfl rfl rfl (Function.update_of_ne hu ..) fun _ _ => ⟨rfl, rfl⟩
  case promoting =>
    -- the victim does not pop, so the frame to steal is not the last
    have hpromoting := h.promoting
    simp only [Placement.push, Function.update_apply]
    grind

/-- A pop leaves the worker at the pop check, or with nothing to execute. -/
theorem Valid.pop (h : P.Valid) {r : Role W} (hr : r = .popping ∨ r = .fetching)
    (hown : (P.pop w r).Own w r) (htoken : (P.role w).token = none)
    (hguard : r.guarded → (P.role w).guarded) (hraised : (P.role w).raised = none)
    (hthief : ∀ u cl, P.role u = .promoting w cl → r = .popping ∧ P.role w ≠ .popping) :
    (P.pop w r).Valid := by
  have hcustody : (P.pop w r).custody = P.custody := by
    ext <;> simp only [Placement.custody, Placement.pop, Function.update_apply]
    grind [Role.token]
  constructor
  case custody => exact hcustody ▸ h.custody
  case fresh => exact h.fresh
  case next_pos => exact h.next_pos
  case above => exact h.above
  case fast => exact h.fast
  case own =>
    intro u
    by_cases hu : u = w
    · subst hu
      have hrole : (P.pop u r).role u = r := Function.update_self ..
      rw [hrole]
      exact hown
    · exact (h.own u).other (Function.update_of_ne hu ..) rfl rfl (Function.update_of_ne hu ..)
        fun _ _ => ⟨rfl, rfl⟩
  all_goals
    have hbottom : ∀ u, (P.pop w r).bottom u = P.bottom u := fun _ => rfl
    try simp only [hbottom]
    simp only [Placement.pop, Function.update_apply]
  case waking | waking_unique | window =>
    have hwindow := h.window
    grind [h.waking, h.waking_unique]
  all_goals
    have hpeeking := h.peeking
    have hraised := h.raised
    have hdekking := h.dekking
    have hpromoting := h.promoting
    grind [h.locks_unique, h.exception, Role.locks, Role.guarded, Role.raised]

/-- The return of a fast clone. -/
theorem Valid.popRunning (h : P.Valid) (hw : P.role w = .running) (ht : 2 ≤ P.tail w) :
    (P.pop w .popping).Valid := by
  have hown := h.own w
  rw [hw] at hown
  obtain ⟨b, hb, hle⟩ := hown
  have htail : (P.pop w .popping).tail w = P.tail w - 1 := Function.update_self ..
  refine h.pop (.inl rfl) ⟨?_, b, .inl ⟨hb, ?_⟩⟩ (by rw [hw]; rfl) (by rw [hw]; exact id)
    (by rw [hw]; rfl) fun u cl hu => ⟨rfl, by rw [hw]; nofun⟩
  · omega
  · change P.head w ≤ _
    omega

/-- An unwound activation that is not the last. -/
theorem Valid.popUnwinding (h : P.Valid) (hw : P.role w = .unwinding) (ht : 2 ≤ P.tail w) :
    (P.pop w .popping).Valid := by
  have hown := h.own w
  rw [hw] at hown
  obtain ⟨b, hb⟩ := hown.2.2 ht
  have htail : (P.pop w .popping).tail w = P.tail w - 1 := Function.update_self ..
  refine h.pop (.inl rfl) ⟨?_, b, hb.imp ?_ ?_⟩ (by rw [hw]; rfl) (by rw [hw]; exact id)
    (by rw [hw]; rfl) fun u cl hu => ⟨rfl, by rw [hw]; nofun⟩
  · omega
  · rintro ⟨hb, hle⟩
    refine ⟨hb, ?_⟩
    change P.head w ≤ _
    omega
  · rintro ⟨hb, hle⟩
    refine ⟨hb, ?_⟩
    change _ ≤ P.head w
    omega

/-- The last activation of the C stack. -/
theorem Valid.popLast (h : P.Valid) (hw : P.role w = .unwinding ∨ P.role w = .leaving)
    (hb : ∀ b, P.bottom w = some b → P.status b = .ready ∨ P.status b = .returning) :
    (P.pop w .fetching).Valid := by
  refine h.pop (.inr rfl) hb ?_ nofun ?_ fun u cl hu => ?_
  · rcases hw with hw | hw <;> rw [hw] <;> rfl
  · rcases hw with hw | hw <;> rw [hw] <;> rfl
  · -- a thief that promotes found a running closure, and nothing runs here
    obtain ⟨-, hd, hs, -⟩ := h.raised u w cl (by rw [hu]; rfl)
    have hready := hb cl (by rw [bottom, hd]; rfl)
    rw [hs] at hready
    simp at hready

/-- The bottom closure has returned, and its worker leaves its stack. -/
theorem Valid.stop (h : P.Valid) {e : ExceptionPointer} {r : Role W}
    (hlock : (P.role w).locks w = some w) (htoken : (P.role w).token = none)
    (hb : P.bottom w = some t) (hr : r = .leaving ∨ r = .unwinding ∧ P.cache t = some w ∧
      1 ≤ P.tail w ∧ P.tail w ≤ P.head w + 1 ∧ (e = .infinity ∨ e = .slot (P.head w))) :
    (P.stop w t e r).Valid := by
  -- the lock of the deque keeps thieves out, and no other deque has the closure
  have hthief := h.no_thief fun u hu hl => hu (h.locks_unique u w w hl hlock)
  have hraised := h.not_raised_of_lock hlock
  have hmem : t ∈ P.deque w := List.mem_of_getLast? hb
  have hheld : P.custody.Holds w t := .inl hmem
  have hparked : P.status t ≠ .suspended := (h.custody.holds_live hheld).2
  have hother : ∀ u, u ≠ w → t ∉ P.deque u := fun u hu hm =>
    hu (h.custody.queue_unique (C := P.custody) hm hmem)
  have hbot : ∀ u, P.bottom u = some t → u = w := fun u hu => by
    by_contra hne
    exact hother u hne (List.mem_of_getLast? hu)
  have hcustody : (P.stop w t e r).custody = P.custody := by
    ext <;> simp only [Placement.custody, Placement.stop, Function.update_apply] <;>
      grind [Role.token]
  constructor
  case custody => exact hcustody ▸ h.custody
  case fresh => exact h.fresh
  case next_pos => exact h.next_pos
  case own =>
    intro u
    by_cases hu : u = w
    · subst hu
      have hrole : (P.stop u t e r).role u = r := Function.update_self ..
      have hst : (P.stop u t e r).status t = .returning := Function.update_self ..
      have hb' : (P.stop u t e r).bottom u = some t := hb
      rw [hrole]
      rcases hr with rfl | ⟨rfl, hc, hpos, hle, -⟩
      · intro b hb
        obtain rfl : b = t := Option.some.inj (hb.symm.trans hb')
        exact hst
      · refine ⟨hpos, fun _ b hb => ?_, fun _ => ⟨t, .inr ⟨⟨hb', hst, hc⟩, hle⟩⟩⟩
        obtain rfl : b = t := Option.some.inj (hb.symm.trans hb')
        exact .inr hst
    · refine (h.own u).other (Function.update_of_ne hu ..) rfl rfl rfl fun c hc => ?_
      have hct : c ≠ t := fun he => hu (h.custody.holds_unique hc (he ▸ hheld))
      exact ⟨Function.update_of_ne hct .., rfl⟩
  all_goals
    have hbottom : ∀ u, (P.stop w t e r).bottom u = P.bottom u := fun _ => rfl
    try simp only [hbottom]
    simp only [Placement.stop, Function.update_apply]
  case above | fast | waking | waking_unique | window =>
    have hwindow := h.window
    have hfast := h.fast
    have hself : ∀ u, t ∈ P.deque u → u = w := fun u hu => by
      by_contra hne
      exact hother u hne hu
    clear hcustody hthief
    grind [h.above, h.waking, h.waking_unique]
  all_goals
    have hpeeking := h.peeking
    have hall := h.raised
    have hdekking := h.dekking
    have hpromoting := h.promoting
    have hfar : ∀ u v, (P.role u).raised ≠ some (v, t) := fun u v hu => by
      have hvt : t ∈ P.deque v := by simp [(h.raised u v t hu).2.1]
      exact (hthief u t).1 (h.custody.queue_unique (C := P.custody) hvt hmem ▸ hu)
    have hne := fun u cl => Role.ne_of_not_raised (hthief u cl).1
    clear hcustody
    grind [h.locks_unique, h.exception, Role.locks, Role.guarded, Role.raised]

/-- `Closure_suspend` of the bottom closure, at the end of a sync or of the
exception handler. -/
theorem Valid.suspend (h : P.Valid) {e : ExceptionPointer} {r : Role W}
    (hlock : (P.role w).locks w = some w) (htoken : (P.role w).token = none)
    (hb : P.bottom w = some t) (hr : r = .fetching ∨ r = .unwinding ∧ P.tail w = 1 ∧
      (e = .infinity ∨ e = .slot (P.head w))) :
    (P.suspend w t e r).Valid := by
  have hthief := h.no_thief fun u hu hl => hu (h.locks_unique u w w hl hlock)
  have hraised := h.not_raised_of_lock hlock
  have hmem : t ∈ P.deque w := List.mem_of_getLast? hb
  have hheld : P.custody.Holds w t := .inl hmem
  have hother : ∀ u, u ≠ w → t ∉ P.deque u := fun u hu hm =>
    hu (h.custody.queue_unique (C := P.custody) hm hmem)
  -- what was above the suspended closure is ready, and becomes the deque
  have hdrop : ∀ c, c ∈ (P.deque w).dropLast → P.status c = .ready ∧ c ≠ t := fun c hc =>
    ⟨h.dropLast_ready hb hc, ((h.custody.mem_dropLast hb c).mp hc).2⟩
  have hcustody : (P.suspend w t e r).custody = P.custody.parkBottom w t := by
    ext <;> simp only [Custody.parkBottom, Placement.custody, Placement.suspend,
      Function.update_apply] <;> grind [Role.token]
  have hbottom : ∀ u, (P.suspend w t e r).bottom u = _ := bottom_update rfl
  have hlast : ∀ b, (P.deque w).dropLast.getLast? = some b → P.status b = .ready ∧ b ≠ t :=
    fun b hb => hdrop b (List.mem_of_getLast? hb)
  generalize (P.deque w).dropLast.getLast? = b' at hbottom hlast
  constructor
  case custody => exact hcustody ▸ h.custody.parkBottom hb
  case fresh => exact h.fresh
  case next_pos => exact h.next_pos
  case own =>
    intro u
    by_cases hu : u = w
    · subst hu
      have hrole : (P.suspend u t e r).role u = r := Function.update_self ..
      have hready : (P.suspend u t e r).Quiet u := fun b hb => by
        rw [hbottom, if_pos rfl] at hb
        simpa [Placement.suspend, (hlast b hb).2] using (hlast b hb).1
      rw [hrole]
      rcases hr with rfl | ⟨rfl, ht, -⟩
      · exact fun b hb => .inl (hready b hb)
      · have htail : (P.suspend u t e .unwinding).tail u = 1 := ht
        exact ⟨by omega, fun _ b hb => .inl (hready b hb), fun hle => by omega⟩
    · refine (h.own u).other (Function.update_of_ne hu ..) (Function.update_of_ne hu ..) rfl rfl
        fun c hc => ?_
      have hct : c ≠ t := fun he => hu (h.custody.holds_unique hc (he ▸ hheld))
      exact ⟨Function.update_of_ne hct .., rfl⟩
  all_goals
    try simp only [hbottom]
    simp only [Placement.suspend, Function.update_apply]
  case above | fast | waking | waking_unique | window =>
    have hwindow := h.window
    have hfast := h.fast
    have hself : ∀ u, t ∈ P.deque u → u = w := fun u hu => by
      by_contra hne
      exact hother u hne hu
    have hbot : ∀ u, P.bottom u = some t → u = w := fun u hu =>
      hself u (List.mem_of_getLast? hu)
    clear hcustody hthief
    grind [h.above, h.waking, h.waking_unique]
  all_goals
    have hpeeking := h.peeking
    have hall := h.raised
    have hdekking := h.dekking
    have hpromoting := h.promoting
    have hfar : ∀ u v, (P.role u).raised ≠ some (v, t) := fun u v hu => by
      have hvt : t ∈ P.deque v := by simp [(h.raised u v t hu).2.1]
      exact (hthief u t).1 (h.custody.queue_unique (C := P.custody) hvt hmem ▸ hu)
    have hne := fun u cl => Role.ne_of_not_raised (hthief u cl).1
    clear hcustody
    grind [h.locks_unique, h.exception, Role.locks, Role.guarded, Role.raised]

/-- The exception handler leaves the bottom closure as it is. -/
theorem Valid.handled (h : P.Valid) {e : ExceptionPointer} {r : Role W}
    (hlock : (P.role w).locks w = some w) (htoken : (P.role w).token = none)
    (hr : r = .running ∨ r = .unwinding) (hown : P.Own w r)
    (he : e = .infinity ∨ e = .slot (P.head w)) : (P.handled w e r).Valid := by
  have hthief := h.no_thief fun u hu hl => hu (h.locks_unique u w w hl hlock)
  have hraised := h.not_raised_of_lock hlock
  have hcustody : (P.handled w e r).custody = P.custody := by
    ext <;> simp only [Placement.custody, Placement.handled, Function.update_apply]
    grind [Role.token]
  constructor
  case custody => exact hcustody ▸ h.custody
  case fresh => exact h.fresh
  case next_pos => exact h.next_pos
  case above => exact h.above
  case fast => exact h.fast
  case own =>
    intro u
    by_cases hu : u = w
    · subst hu
      have hrole : (P.handled u e r).role u = r := Function.update_self ..
      rw [hrole]
      exact hown.frame (.inl rfl) (fun _ _ => id) rfl rfl fun _ _ => ⟨rfl, rfl⟩
    · exact (h.own u).other (Function.update_of_ne hu ..) rfl rfl rfl fun _ _ => ⟨rfl, rfl⟩
  all_goals
    have hbottom : ∀ u, (P.handled w e r).bottom u = P.bottom u := fun _ => rfl
    try simp only [hbottom]
    simp only [Placement.handled, Function.update_apply]
  case waking | waking_unique | window =>
    have hwindow := h.window
    grind [h.waking, h.waking_unique]
  all_goals
    have hpeeking := h.peeking
    have hall := h.raised
    have hdekking := h.dekking
    have hpromoting := h.promoting
    have hne := fun u cl => Role.ne_of_not_raised (hthief u cl).1
    clear hcustody
    grind [h.locks_unique, h.exception, Role.locks, Role.guarded, Role.raised]

/-- The root closure leaves the deque and is freed, where no thief has the deque
locked. -/
theorem Valid.remove (h : P.Valid) (hw : P.role w = .removing) (hb : P.bottom w = some t)
    (hfree : ∀ u, u ≠ w → (P.role u).locks u ≠ some w) : (P.remove w t).Valid := by
  have hthief := h.no_thief hfree
  have hdrop : ∀ c, c ∈ (P.deque w).dropLast → P.status c = .ready := fun c hc =>
    h.dropLast_ready hb hc
  have hcustody : (P.remove w t).custody = P.custody.destroyBottom w t := by
    ext <;> simp only [Custody.destroyBottom, Placement.custody, Placement.remove,
      Function.update_apply] <;> grind [Role.token]
  have hbottom : ∀ u, (P.remove w t).bottom u = _ := bottom_update rfl
  have hlast : ∀ b, (P.deque w).dropLast.getLast? = some b → P.status b = .ready :=
    fun b hb => hdrop b (List.mem_of_getLast? hb)
  generalize (P.deque w).dropLast.getLast? = b' at hbottom hlast
  constructor
  case custody => exact hcustody ▸ h.custody.destroyBottom hb
  case next_pos => exact h.next_pos
  case own =>
    intro u
    by_cases hu : u = w
    · subst hu
      have hrole : (P.remove u t).role u = .fetching := Function.update_self ..
      rw [hrole]
      intro b hb
      rw [hbottom, if_pos rfl] at hb
      exact .inl (hlast b hb)
    · exact (h.own u).other (Function.update_of_ne hu ..) (Function.update_of_ne hu ..) rfl rfl
        fun _ _ => ⟨rfl, rfl⟩
  all_goals
    try simp only [hbottom]
    simp only [Placement.remove, Function.update_apply]
  case fresh | above | fast | waking | waking_unique | window =>
    have hwindow := h.window
    have hfast := h.fast
    have hfresh := h.fresh
    clear hcustody hthief
    grind [h.above, h.waking, h.waking_unique]
  all_goals
    have hpeeking := h.peeking
    have hall := h.raised
    have hdekking := h.dekking
    have hpromoting := h.promoting
    have hne := fun u cl => Role.ne_of_not_raised (hthief u cl).1
    clear hcustody
    grind [h.locks_unique, h.exception, Role.locks, Role.guarded, Role.raised]

end Moves

end Placement

end Cilk
