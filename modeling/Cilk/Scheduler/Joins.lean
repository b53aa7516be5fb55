import Cilk.ForkJoin
import Cilk.Scheduler.Frames

/-!
# The scheduler forks and joins

Every closure but the root is a child that its parent waits for, and the
scheduler keeps the protocol of `ForkJoin` with it. `finish_promote` registers
a child that `promote_child` created, and the lock of the parent is held from
the one to the other; `Closure_return` removes the child, delivers what it
brings home or throws it away, and counts it out, all under the lock of the
parent. `Tracks` is the simulation relation, and the results about join
counters, lists of children and slow syncs are read off the protocol.
-/

namespace Cilk

variable {W : Type}

/-! ## What a run says of children -/

/-- The child `c` of `p` was registered. -/
def Event.forks (p c : ClosureId) : Event W → Bool
  | promoted q d => q = p && d = c
  | _ => false

/-- What `c` brought home to `p` was applied, or thrown away. -/
def Event.settles (p c : ClosureId) : Event W → Bool
  | apply q i | drop q i => q = p && i.this = some c
  | _ => false

/-- The child `c` was destroyed. -/
def Event.ends (c : ClosureId) : Event W → Bool
  | destroy d => d = c
  | _ => false

/-- The event says nothing of children. -/
def Event.plain : Event W → Bool
  | promoted _ _ | apply _ _ | drop _ _ | destroy _ => false
  | _ => true

/-- The event says nothing of children, and lets no closure go on. -/
def Event.quiet : Event W → Bool
  | synced _ | provablyGood _ => false
  | e => e.plain

namespace Event

variable {t t' t'' es : List (Event W)} {e : Event W}

/-- The history `t'` is `t` with the events `es`, and with others that say
nothing of children. -/
inductive Says : List (Event W) → List (Event W) → List (Event W) → Prop
  | refl (t : List (Event W)) : Says [] t t
  | plain {es t t' : List (Event W)} {e : Event W} (he : e.plain = true) :
      Says es t t' → Says es t (e :: t')
  | cons {es t t' : List (Event W)} (e : Event W) : Says es t t' → Says (e :: es) t (e :: t')

/-- What is counted among the events that are not plain is counted in the list
of those told. -/
theorem Says.countP (h : Says es t t') {f : Event W → Bool}
    (hf : ∀ e, e.plain = true → f e = false) : t'.countP f = t.countP f + es.countP f := by
  induction h with
  | refl => rfl
  | plain he _ ih => rw [List.countP_cons, hf _ he, ih]; rfl
  | cons e _ ih => rw [List.countP_cons, List.countP_cons, ih, Nat.add_assoc]

theorem plain_of_quiet {e : Event W} (h : e.quiet = true) : e.plain = true := by
  cases e <;> first | exact h | exact absurd h Bool.false_ne_true

/-- Quiet events say nothing of children. -/
theorem says_of_extends (h : TransitionSystem.Extends (fun e => e.quiet = true) t t') :
    Says [] t t' := by
  obtain ⟨es, rfl, hes⟩ := h
  induction es with
  | nil => exact .refl t
  | cons e es ih =>
    obtain ⟨he, hes⟩ := List.forall_mem_cons.mp hes
    exact .plain (plain_of_quiet he) (ih hes)

/-- A plain event registers no child. -/
theorem forks_of_plain (p c : ClosureId) (h : e.plain = true) : e.forks p c = false := by
  cases e <;> simp_all [plain, forks]

/-- A plain event settles nothing. -/
theorem settles_of_plain (p c : ClosureId) (h : e.plain = true) : e.settles p c = false := by
  cases e <;> simp_all [plain, settles]

/-- A plain event destroys nothing. -/
theorem ends_of_plain (c : ClosureId) (h : e.plain = true) : e.ends c = false := by
  cases e <;> simp_all [plain, ends]

end Event

/-- The child a worker is busy with, its parent, and the stage it is at. -/
def PollCaller.child : PollCaller → Option (ClosureId × ClosureId × Stage)
  | closureReturn c p => some (p, c, .delivered)
  | provablyGood c p => some (p, c, .counted)
  | _ => none

/-- The child of the program counter, by the function it is in. -/
def Control.child : Control W → Option (ClosureId × ClosureId × Stage)
  | finishPromote p c => some (p, c, .forked)
  | returnChild c p _ => some (p, c, .carried)
  | poll k | abortWalk k _ _ _ => k.child
  | _ => none

/-- The caller of `poll_inlets` asks for the join counter afterwards. -/
def PollCaller.asks : PollCaller → Bool
  | sync _ | closureReturn _ _ | provablyGood _ _ => true
  | _ => false

/-- Who is busy with a child has the lock of the parent. -/
theorem Control.mem_held_of_child {w : W} {q : Control W} {p c : ClosureId} {s : Stage}
    (hq : q.child = some (p, c, s)) : .closure p ∈ q.held w := by
  cases q
  case poll k | abortWalk k _ _ _ =>
    cases k <;> simp_all [child, PollCaller.child, held, PollCaller.held]
  all_goals simp_all [child, held]

namespace State

/-! ## The simulation -/

/-- The closures and the history, and the stages of the children. -/
structure Books (σ : State W) (J : ForkJoin ClosureId) : Prop where
  known : ∀ c, J.stage c = .unknown ↔ σ.nextClosure ≤ c
  live : ∀ c, fieldOf σ.closure Closure.magic c = true ↔
    J.stage c ≠ .unknown ∧ J.stage c ≠ .ended
  forked : ∀ p c, σ.trace.countP (Event.forks p c) =
    if J.parent c = some p ∧ (J.stage c).listed = true then 1 else 0
  settled : ∀ p c, σ.trace.countP (Event.settles p c) = J.settled p c
  ended : ∀ c, σ.trace.countP (Event.ends c) = if J.stage c = .ended then 1 else 0
  root : J.parent rootClosure = none

/-- The counters and the lists of the closures. -/
structure Tracks (σ : State W) (J : ForkJoin ClosureId) : Prop where
  parent : J.parent = fieldOf σ.closure Closure.parent
  count : J.count = fieldOf σ.closure Closure.joinCounter
  waiting : ∀ p, (fieldOf σ.closure Closure.incompleteInlets p).map InletClosure.this =
    (J.waiting p).map some
  arrived : ∀ p, (fieldOf σ.closure Closure.completeInlets p).filterMap InletClosure.this =
    J.arrived p

/-- The program counters say which children are on their way. -/
structure Busy (control : W → Control W) (J : ForkJoin ClosureId) : Prop where
  stage : ∀ w p c s, (control w).child = some (p, c, s) → J.parent c = some p ∧ J.stage c = s
  worker : ∀ c, J.stage c = .forked ∨ (J.stage c).homing = true →
    ∃ w p s, (control w).child = some (p, c, s)
  counted : ∀ w p c, (control w).child = some (p, c, .counted) → J.count p = 0

/-- **The scheduler is in step with the protocol.** -/
structure Joins (σ : State W) (J : ForkJoin ClosureId) : Prop where
  valid : J.Valid
  books : σ.Books J
  tracks : σ.Tracks J
  busy : Busy σ.control J

variable [DecidableEq W] {cfg : Config} {w : W} {σ σ' : State W} {J J' : ForkJoin ClosureId}

namespace Busy

/-- Worker `w` is busy with the child `c` of `p` before the step or after it,
or with none, and nobody else is with `c` or has `p` locked. -/
theorem step {control : W → Control W} {q : Control W} {c : ClosureId} (h : Busy control J)
    (hothers : ∀ u, u ≠ w → ∀ p d s, (control u).child = some (p, d, s) →
      d ≠ c ∧ J'.count p = J.count p)
    (hbefore : ∀ p d s, (control w).child = some (p, d, s) → d = c)
    (hparent : ∀ d, d ≠ c → J'.parent d = J.parent d)
    (hstage : ∀ d, d ≠ c → J'.stage d = J.stage d)
    (hafter : ∀ p d s, q.child = some (p, d, s) → d = c ∧ J'.parent c = some p ∧ J'.stage c = s ∧
      (s = .counted → J'.count p = 0))
    (hnone : q.child = none → J'.stage c ≠ .forked ∧ (J'.stage c).homing = false) :
    Busy (Function.update control w q) J' := by
  constructor
  · intro u p d s hu
    rw [Function.update_apply] at hu
    split at hu
    case isTrue =>
      obtain ⟨rfl, hp, hs, -⟩ := hafter p d s hu
      exact ⟨hp, hs⟩
    case isFalse hne =>
      have hd := (hothers u hne p d s hu).1
      rw [hparent d hd, hstage d hd]
      exact h.stage u p d s hu
  · intro d hd
    by_cases hdc : d = c
    · subst hdc
      rcases hq : q.child with _ | ⟨p, e, s⟩
      · rw [(hnone hq).2] at hd
        exact absurd hd (by simpa using (hnone hq).1)
      · obtain ⟨rfl, -⟩ := hafter p e s hq
        exact ⟨w, p, s, by rw [Function.update_self]; exact hq⟩
    · rw [hstage d hdc] at hd
      obtain ⟨u, p, s, hu⟩ := h.worker d hd
      have hne : u ≠ w := fun he => hdc (hbefore p d s (he ▸ hu))
      exact ⟨u, p, s, by rw [Function.update_of_ne hne]; exact hu⟩
  · intro u p d hu
    rw [Function.update_apply] at hu
    split at hu
    case isTrue => exact (hafter p d _ hu).2.2.2 rfl
    case isFalse hne =>
      rw [(hothers u hne p d _ hu).2]
      exact h.counted u p d hu

/-- A step that does nothing to children. -/
theorem same {control : W → Control W} {q : Control W} (h : Busy control J)
    (hq : q.child = (control w).child) : Busy (Function.update control w q) J := by
  have hchild : ∀ u, (Function.update control w q u).child = (control u).child := by
    intro u
    rw [Function.update_apply]
    split
    case isTrue hu => rw [hu, hq]
    case isFalse => rfl
  constructor
  · intro u p c s hu
    exact h.stage u p c s (hchild u ▸ hu)
  · intro c hc
    obtain ⟨u, p, s, hu⟩ := h.worker c hc
    exact ⟨u, p, s, (hchild u).trans hu⟩
  · intro u p c hu
    exact h.counted u p c (hchild u ▸ hu)

end Busy

/-- Nobody but `w` is busy with a child of `p`. -/
def Alone (σ : State W) (w : W) (p : ClosureId) : Prop :=
  ∀ u, u ≠ w → ∀ q c s, (σ.control u).child = some (q, c, s) → q ≠ p

omit [DecidableEq W] in
/-- Who has the lock of a parent is alone with its children, and so is who
may take it. -/
theorem LocksHeld.alone {p : ClosureId} (hl : σ.LocksHeld)
    (hlock : σ.owner (.closure p) = none ∨ σ.owner (.closure p) = some w) : σ.Alone w p := by
  rintro u hu q c s hc rfl
  have hheld : .closure q ∈ σ.held u := Control.mem_held_of_child hc
  rcases hlock with hfree | hown
  · exact hl.held.not_mem_of_free hfree hheld
  · exact hu (Option.some.inj (((hl.held.mem_held u _).mp hheld).symm.trans hown))

omit [DecidableEq W] in
/-- Who is busy with a child of `p` is alone with the children of `p`. -/
theorem LocksHeld.alone_of_child {p c : ClosureId} {s : Stage} (hl : σ.LocksHeld)
    (hw : (σ.control w).child = some (p, c, s)) : σ.Alone w p :=
  hl.alone (.inr ((hl.held.mem_held w _).mp (Control.mem_held_of_child hw)))

/-- The others stay where they are. -/
theorem Alone.update {p : ClosureId} {q : Control W} (h : σ.Alone w p)
    (hcontrol : σ'.control = Function.update σ.control w q) : σ'.Alone w p := by
  intro u hu
  rw [hcontrol, Function.update_of_ne hu]
  exact h u hu

omit [DecidableEq W] in
/-- The child `c` gets to stage `s`, and the events `es` say so. -/
theorem Books.move {c : ClosureId} {s : Stage} {es : List (Event W)} (h : σ.Books J)
    (hc : J.stage c ≠ .unknown) (hc' : J.stage c ≠ .ended) (hs : s ≠ .unknown)
    (hlisted : (J.stage c).listed = true → s.listed = true)
    (hparent : J'.parent = J.parent) (hstage : J'.stage = Function.update J.stage c s)
    (hsettled : ∀ p d, J'.settled p d = J.settled p d + es.countP (Event.settles p d))
    (hforked : ∀ p d, es.countP (Event.forks p d) =
      if d = c ∧ J.parent c = some p ∧ s.listed = true ∧ (J.stage c).listed = false then 1 else 0)
    (hended : ∀ d, es.countP (Event.ends d) = if d = c ∧ s = .ended then 1 else 0)
    (hnext : σ'.nextClosure = σ.nextClosure)
    (hmagic : ∀ d, fieldOf σ'.closure Closure.magic d =
      if d = c ∧ s = .ended then false else fieldOf σ.closure Closure.magic d)
    (htrace : Event.Says es σ.trace σ'.trace) : σ'.Books J' := by
  obtain ⟨hknown, hlive, hforks, hsettles, hends, hroot⟩ := h
  constructor
  case known =>
    intro d
    rw [hnext, hstage, ← hknown d]
    grind
  case live =>
    intro d
    have := hlive d
    rw [hmagic, hstage]
    grind
  case forked =>
    intro p d
    rw [htrace.countP fun _ => Event.forks_of_plain p d, hforks, hforked, hparent, hstage]
    grind
  case settled =>
    intro p d
    rw [htrace.countP fun _ => Event.settles_of_plain p d, hsettles, hsettled]
  case ended =>
    intro d
    rw [htrace.countP fun _ => Event.ends_of_plain d, hends, hended, hstage]
    grind
  case root => rw [hparent, hroot]

namespace Joins

/-- A step that does nothing to children. -/
theorem keep {q : Control W} (h : σ.Joins J)
    (hparent : fieldOf σ'.closure Closure.parent = fieldOf σ.closure Closure.parent)
    (hcount : fieldOf σ'.closure Closure.joinCounter = fieldOf σ.closure Closure.joinCounter)
    (hwaiting : fieldOf σ'.closure Closure.incompleteInlets =
      fieldOf σ.closure Closure.incompleteInlets)
    (harrived : ∀ p, (fieldOf σ'.closure Closure.completeInlets p).filterMap InletClosure.this =
      (fieldOf σ.closure Closure.completeInlets p).filterMap InletClosure.this)
    (hnext : σ'.nextClosure = σ.nextClosure)
    (hmagic : fieldOf σ'.closure Closure.magic = fieldOf σ.closure Closure.magic)
    (htrace : Event.Says [] σ.trace σ'.trace)
    (hcontrol : σ'.control = Function.update σ.control w q)
    (hq : q.child = (σ.control w).child) : σ'.Joins J where
  valid := h.valid
  books := by
    obtain ⟨hknown, hlive, hforks, hsettles, hends, hroot⟩ := h.books
    refine ⟨hnext ▸ hknown, hmagic ▸ hlive, fun p c => ?_, fun p c => ?_, fun c => ?_, hroot⟩
    · rw [htrace.countP fun _ => Event.forks_of_plain p c]
      exact hforks p c
    · rw [htrace.countP fun _ => Event.settles_of_plain p c]
      exact hsettles p c
    · rw [htrace.countP fun _ => Event.ends_of_plain c]
      exact hends c
  tracks :=
    ⟨hparent ▸ h.tracks.parent, hcount ▸ h.tracks.count, hwaiting ▸ h.tracks.waiting, fun p =>
      (harrived p).trans (h.tracks.arrived p)⟩
  busy := hcontrol ▸ h.busy.same hq

omit [DecidableEq W] in
/-- While the lock of a parent is free, no child of it is on its way. -/
theorem idle {p : ClosureId} (h : σ.Joins J) (hl : σ.LocksHeld)
    (hfree : σ.owner (.closure p) = none) {c : ClosureId} (hc : J.parent c = some p) :
    J.stage c ≠ .forked ∧ (J.stage c).homing = false := by
  by_contra hcontra
  have hway : J.stage c = .forked ∨ (J.stage c).homing = true := by
    rcases not_and_or.mp hcontra with hf | hh
    · exact .inl (not_not.mp hf)
    · exact .inr (by simpa using hh)
  obtain ⟨u, q, s, hu⟩ := h.busy.worker c hway
  cases Option.some.inj ((h.busy.stage u q c s hu).1.symm.trans hc)
  exact hl.held.not_mem_of_free hfree (w := u) (Control.mem_held_of_child hu)

/-- A step of the worker that is busy with the child `c` of `p`. -/
theorem busy_step {p c : ClosureId} {s s' : Stage} {q : Control W} (h : σ.Joins J)
    (halone : σ.Alone w p) (hw : (σ.control w).child = some (p, c, s))
    (hparent : J'.parent = J.parent) (hstage : J'.stage = Function.update J.stage c s')
    (hcount : ∀ d, d ≠ p → J'.count d = J.count d)
    (hq : q.child = none ∧ s' ≠ .forked ∧ s'.homing = false ∨
      q.child = some (p, c, s') ∧ (s' = .counted → J'.count p = 0)) :
    Busy (Function.update σ.control w q) J' := by
  have hpc := (h.busy.stage w p c s hw).1
  refine h.busy.step (c := c) ?_ ?_ ?_ ?_ ?_ ?_
  · intro u hu d e r hd
    have hdp := halone u hu d e r hd
    refine ⟨?_, hcount d hdp⟩
    rintro rfl
    exact hdp (Option.some.inj ((h.busy.stage u d e r hd).1.symm.trans hpc))
  · intro d e r hd
    rw [hw] at hd
    cases hd
    rfl
  · intro d _
    rw [hparent]
  · intro d hd
    rw [hstage, Function.update_of_ne hd]
  · intro d e r hd
    rcases hq with ⟨hnone, -⟩ | ⟨hsome, hzero⟩
    · rw [hnone] at hd
      cases hd
    · rw [hsome] at hd
      cases hd
      rw [hparent, hstage]
      exact ⟨rfl, hpc, Function.update_self .., hzero⟩
  · intro hnil
    rcases hq with ⟨-, hs⟩ | ⟨hsome, -⟩
    · rwa [hstage, Function.update_self]
    · rw [hsome] at hnil
      cases hnil

/-! ## The moves of the protocol -/

/-- `promote_child`. -/
theorem fork {p : ClosureId} {q : Control W} (h : σ.Joins J) (hp : p < σ.nextClosure)
    (hw : (σ.control w).child = none)
    (hparent : fieldOf σ'.closure Closure.parent =
      Function.update (fieldOf σ.closure Closure.parent) σ.nextClosure (some p))
    (hcount : fieldOf σ'.closure Closure.joinCounter =
      Function.update (fieldOf σ.closure Closure.joinCounter) σ.nextClosure 0)
    (hwaiting : fieldOf σ'.closure Closure.incompleteInlets =
      Function.update (fieldOf σ.closure Closure.incompleteInlets) σ.nextClosure [])
    (harrived : fieldOf σ'.closure Closure.completeInlets =
      Function.update (fieldOf σ.closure Closure.completeInlets) σ.nextClosure [])
    (hnext : σ'.nextClosure = σ.nextClosure + 1)
    (hmagic : fieldOf σ'.closure Closure.magic =
      Function.update (fieldOf σ.closure Closure.magic) σ.nextClosure true)
    (htrace : Event.Says [] σ.trace σ'.trace)
    (hcontrol : σ'.control = Function.update σ.control w q)
    (hq : q.child = some (p, σ.nextClosure, .forked)) :
    σ'.Joins (J.fork p σ.nextClosure) := by
  have hnew := (h.books.known σ.nextClosure).mpr le_rfl
  have hold : J.stage p ≠ .unknown := fun he => Nat.not_le.mpr hp ((h.books.known p).mp he)
  have hfresh := h.valid.fresh _ hnew
  have hempty : J.waiting σ.nextClosure = [] := by
    rw [List.eq_nil_iff_forall_not_mem]
    exact fun d hd => hfresh.2 d ((h.valid.mem_waiting _ d).mp hd).1
  have hnone : J.arrived σ.nextClosure = [] := by
    rw [List.eq_nil_iff_forall_not_mem]
    intro d hd
    have hbrought := h.valid.brought σ.nextClosure d
    rw [if_neg fun hd => hfresh.2 d hd.1] at hbrought
    exact List.count_eq_zero.mp (Nat.add_eq_zero_iff.mp hbrought).1 hd
  have hzero : J.count σ.nextClosure = 0 := by
    rw [h.valid.count _ fun d hd => absurd hd (hfresh.2 d), hempty, List.length_nil]
  refine ⟨h.valid.fork hold hnew, ?_, ?_, ?_⟩
  · obtain ⟨hknown, hlive, hforks, hsettles, hends, hroot⟩ := h.books
    constructor <;> simp only [ForkJoin.fork, ForkJoin.setStage]
    case known =>
      intro c
      rw [hnext, Function.update_apply]
      split
      case isTrue hc => simp [hc]
      case isFalse hc => rw [hknown c, Nat.succ_le_iff, lt_iff_le_and_ne, ne_comm, and_iff_left hc]
    case live =>
      intro c
      rw [hmagic, Function.update_apply, Function.update_apply]
      split
      case isTrue => simp
      case isFalse => exact hlive c
    case forked =>
      intro d c
      rw [htrace.countP fun _ => Event.forks_of_plain d c, hforks d c]
      grind [Stage.listed]
    case settled =>
      intro d c
      rw [htrace.countP fun _ => Event.settles_of_plain d c]
      exact hsettles d c
    case ended =>
      intro c
      rw [htrace.countP fun _ => Event.ends_of_plain c, hends c]
      grind
    case root =>
      rw [Function.update_of_ne (Nat.zero_le p |>.trans_lt hp).ne]
      exact hroot
  · obtain ⟨ht1, ht2, ht3, ht4⟩ := h.tracks
    constructor <;> simp only [ForkJoin.fork, ForkJoin.setStage]
    case parent => rw [hparent, ht1]
    case count => rw [hcount, ← ht2, ← hzero, Function.update_eq_self]
    case waiting =>
      intro d
      rw [hwaiting]
      by_cases hd : d = σ.nextClosure
      · rw [hd, Function.update_self, hempty]
        rfl
      · rw [Function.update_of_ne hd]
        exact ht3 d
    case arrived =>
      intro d
      rw [harrived]
      by_cases hd : d = σ.nextClosure
      · rw [hd, Function.update_self, hnone]
        rfl
      · rw [Function.update_of_ne hd]
        exact ht4 d
  · rw [hcontrol]
    refine h.busy.step (c := σ.nextClosure) ?_ ?_ ?_ ?_ ?_ ?_
    · intro u _ d e s hd
      have hstage := h.busy.stage u d e s hd
      refine ⟨?_, rfl⟩
      rintro rfl
      rw [hfresh.1] at hstage
      cases hstage.1
    · intro d e s hd
      rw [hw] at hd
      cases hd
    · exact fun d hd => Function.update_of_ne hd ..
    · exact fun d hd => Function.update_of_ne hd ..
    · intro d e s hd
      rw [hq] at hd
      cases hd
      exact ⟨rfl, Function.update_self .., Function.update_self .., fun he => by cases he⟩
    · intro hnil
      rw [hq] at hnil
      cases hnil

/-- `finish_promote`. -/
theorem register {p c : ClosureId} {i : InletClosure} {q : Control W} (h : σ.Joins J)
    (halone : σ.Alone w p) (hw : (σ.control w).child = some (p, c, .forked)) (hi : i.this = some c)
    (hparent : fieldOf σ'.closure Closure.parent = fieldOf σ.closure Closure.parent)
    (hcount : fieldOf σ'.closure Closure.joinCounter =
      Function.update (fieldOf σ.closure Closure.joinCounter) p
        (fieldOf σ.closure Closure.joinCounter p + 1))
    (hwaiting : fieldOf σ'.closure Closure.incompleteInlets =
      Function.update (fieldOf σ.closure Closure.incompleteInlets) p
        (i :: fieldOf σ.closure Closure.incompleteInlets p))
    (harrived : fieldOf σ'.closure Closure.completeInlets =
      fieldOf σ.closure Closure.completeInlets)
    (hnext : σ'.nextClosure = σ.nextClosure)
    (hmagic : fieldOf σ'.closure Closure.magic = fieldOf σ.closure Closure.magic)
    (htrace : Event.Says [.promoted p c] σ.trace σ'.trace)
    (hcontrol : σ'.control = Function.update σ.control w q) (hq : q.child = none) :
    σ'.Joins (J.register p c) := by
  obtain ⟨hpc, hstage⟩ := h.busy.stage w p c _ hw
  refine ⟨h.valid.register hpc hstage, ?_, ?_, ?_⟩
  · refine h.books.move (by simp [hstage]) (by simp [hstage]) (s := .waiting) (by decide)
      (fun _ => rfl) rfl rfl (fun _ _ => rfl) ?_ ?_ hnext ?_ htrace
    · intro d e
      simp only [Event.forks, hstage, Stage.listed, List.countP_cons, List.countP_nil]
      grind
    · simp [Event.ends]
    · simp [hmagic]
  · obtain ⟨hp, hn, hwait, harr⟩ := h.tracks
    refine ⟨hp.trans hparent.symm, ?_, fun d => ?_, harrived ▸ harr⟩
    · rw [hcount, ← hn]
      rfl
    · show _ = (Function.update J.waiting p (c :: J.waiting p) d).map some
      rw [hwaiting]
      by_cases hd : d = p
      · rw [hd, Function.update_self, Function.update_self, List.map_cons, hwait, hi, List.map_cons]
      · rw [Function.update_of_ne hd, Function.update_of_ne hd, hwait]
  · rw [hcontrol]
    exact h.busy_step halone hw rfl rfl (fun d hd => Function.update_of_ne hd ..)
      (.inl ⟨hq, by decide, rfl⟩)

/-- `Closure_remove_child` takes the child off the list. -/
theorem map_removeChild {c : ClosureId} {l is : List InletClosure} {i : InletClosure}
    (hi : removeChild c l = some (i, is)) {cs : List ClosureId}
    (hl : l.map InletClosure.this = cs.map some) :
    c ∈ cs ∧ is.map InletClosure.this = (cs.erase c).map some := by
  induction l generalizing cs is with
  | nil => cases hi
  | cons j js ih =>
    cases cs with
    | nil => cases hl
    | cons d ds =>
      rw [List.map_cons, List.map_cons] at hl
      obtain ⟨hd, hds⟩ := List.cons.inj hl
      unfold removeChild at hi
      split at hi
      case isTrue hj =>
        cases Option.some.inj hi
        cases Option.some.inj (hd.symm.trans hj)
        rw [List.erase_cons_head]
        exact ⟨List.mem_cons_self, hds⟩
      case isFalse hj =>
        obtain ⟨⟨i', is'⟩, hr, he⟩ := Option.map_eq_some_iff.mp hi
        cases he
        have hne : d ≠ c := fun he => hj (hd.trans (congrArg some he))
        obtain ⟨hmem, hmap⟩ := ih hr hds
        rw [List.erase_cons_tail (by simpa using hne), List.map_cons, List.map_cons, hmap, hd]
        exact ⟨List.mem_cons_of_mem _ hmem, rfl⟩

/-- `Closure_return`, at the lock of the parent. -/
theorem remove {p c : ClosureId} {i : InletClosure} {is : List InletClosure} {q : Control W}
    (h : σ.Joins J) (hl : σ.LocksHeld) (hw : (σ.control w).child = none)
    (hpc : fieldOf σ.closure Closure.parent c = some p) (hfree : σ.owner (.closure p) = none)
    (hi : removeChild c (fieldOf σ.closure Closure.incompleteInlets p) = some (i, is))
    (hparent : fieldOf σ'.closure Closure.parent = fieldOf σ.closure Closure.parent)
    (hcount : fieldOf σ'.closure Closure.joinCounter = fieldOf σ.closure Closure.joinCounter)
    (hwaiting : fieldOf σ'.closure Closure.incompleteInlets =
      Function.update (fieldOf σ.closure Closure.incompleteInlets) p is)
    (harrived : fieldOf σ'.closure Closure.completeInlets =
      fieldOf σ.closure Closure.completeInlets)
    (hnext : σ'.nextClosure = σ.nextClosure)
    (hmagic : fieldOf σ'.closure Closure.magic = fieldOf σ.closure Closure.magic)
    (htrace : Event.Says [] σ.trace σ'.trace)
    (hcontrol : σ'.control = Function.update σ.control w q)
    (hq : q.child = some (p, c, .carried)) :
    σ'.Joins (J.remove p c ((J.waiting p).erase c)) := by
  rw [← h.tracks.parent] at hpc
  obtain ⟨hmem, hmap⟩ := map_removeChild hi (h.tracks.waiting p)
  have hstage := ((h.valid.mem_waiting p c).mp hmem).2
  refine ⟨h.valid.remove hpc (List.perm_cons_erase hmem) fun d hd => (h.idle hl hfree hd).2, ?_,
    ?_, ?_⟩
  · exact h.books.move (by simp [hstage]) (by simp [hstage]) (s := .carried) (by decide)
      (fun _ => rfl) rfl rfl (fun _ _ => rfl) (by simp [hstage, Stage.listed]) (by simp) hnext
      (by simp [hmagic]) htrace
  · obtain ⟨hp, hn, hwait, harr⟩ := h.tracks
    refine ⟨hp.trans hparent.symm, hn.trans hcount.symm, fun d => ?_, harrived ▸ harr⟩
    show _ = (Function.update J.waiting p ((J.waiting p).erase c) d).map some
    rw [hwaiting]
    by_cases hd : d = p
    · rw [hd, Function.update_self, Function.update_self, hmap]
    · rw [Function.update_of_ne hd, Function.update_of_ne hd, hwait]
  · rw [hcontrol]
    refine h.busy.step (c := c) ?_ ?_ ?_ ?_ ?_ ?_
    · intro u hu d e s hd
      refine ⟨?_, rfl⟩
      rintro rfl
      refine hl.alone (.inl hfree) u hu d e s hd ?_
      exact Option.some.inj ((h.busy.stage u d e s hd).1.symm.trans hpc)
    · intro d e s hd
      rw [hw] at hd
      cases hd
    · exact fun _ _ => rfl
    · exact fun d hd => Function.update_of_ne hd ..
    · intro d e s hd
      rw [hq] at hd
      cases hd
      exact ⟨rfl, hpc, Function.update_self .., fun he => by cases he⟩
    · intro hnil
      rw [hq] at hnil
      cases hnil

/-- `complete_and_enque_inlet`, of a child that is not aborting. -/
theorem deliver {p c : ClosureId} {i : InletClosure} {q : Control W} (h : σ.Joins J)
    (halone : σ.Alone w p) (hw : (σ.control w).child = some (p, c, .carried)) (hi : i.this = some c)
    (hparent : fieldOf σ'.closure Closure.parent = fieldOf σ.closure Closure.parent)
    (hcount : fieldOf σ'.closure Closure.joinCounter = fieldOf σ.closure Closure.joinCounter)
    (hwaiting : fieldOf σ'.closure Closure.incompleteInlets =
      fieldOf σ.closure Closure.incompleteInlets)
    (harrived : fieldOf σ'.closure Closure.completeInlets =
      Function.update (fieldOf σ.closure Closure.completeInlets) p
        (i :: fieldOf σ.closure Closure.completeInlets p))
    (hnext : σ'.nextClosure = σ.nextClosure)
    (hmagic : fieldOf σ'.closure Closure.magic = fieldOf σ.closure Closure.magic)
    (htrace : Event.Says [] σ.trace σ'.trace)
    (hcontrol : σ'.control = Function.update σ.control w q)
    (hq : q.child = some (p, c, .delivered)) : σ'.Joins (J.deliver p c) := by
  obtain ⟨hpc, hstage⟩ := h.busy.stage w p c _ hw
  refine ⟨h.valid.deliver hpc hstage, ?_, ?_, ?_⟩
  · exact h.books.move (by simp [hstage]) (by simp [hstage]) (s := .delivered) (by decide)
      (fun _ => rfl) rfl rfl (fun _ _ => rfl) (by simp [hstage, Stage.listed]) (by simp) hnext
      (by simp [hmagic]) htrace
  · obtain ⟨hp, hn, hwait, harr⟩ := h.tracks
    refine ⟨hp.trans hparent.symm, hn.trans hcount.symm, hwaiting ▸ hwait, fun d => ?_⟩
    show _ = Function.update J.arrived p (c :: J.arrived p) d
    rw [harrived]
    by_cases hd : d = p
    · rw [hd, Function.update_self, Function.update_self, List.filterMap_cons_some hi, harr]
    · rw [Function.update_of_ne hd, Function.update_of_ne hd, harr]
  · rw [hcontrol]
    exact h.busy_step halone hw rfl rfl (fun _ _ => rfl) (.inr ⟨hq, fun he => by cases he⟩)

/-- `complete_and_enque_inlet`, of a child that is aborting. -/
theorem discard {p c : ClosureId} {i : InletClosure} {q : Control W} (h : σ.Joins J)
    (halone : σ.Alone w p) (hw : (σ.control w).child = some (p, c, .carried)) (hi : i.this = some c)
    (hparent : fieldOf σ'.closure Closure.parent = fieldOf σ.closure Closure.parent)
    (hcount : fieldOf σ'.closure Closure.joinCounter = fieldOf σ.closure Closure.joinCounter)
    (hwaiting : fieldOf σ'.closure Closure.incompleteInlets =
      fieldOf σ.closure Closure.incompleteInlets)
    (harrived : fieldOf σ'.closure Closure.completeInlets =
      fieldOf σ.closure Closure.completeInlets)
    (hnext : σ'.nextClosure = σ.nextClosure)
    (hmagic : fieldOf σ'.closure Closure.magic = fieldOf σ.closure Closure.magic)
    (htrace : Event.Says [.drop p i] σ.trace σ'.trace)
    (hcontrol : σ'.control = Function.update σ.control w q)
    (hq : q.child = some (p, c, .delivered)) : σ'.Joins (J.discard p c) := by
  obtain ⟨hpc, hstage⟩ := h.busy.stage w p c _ hw
  refine ⟨h.valid.discard hpc hstage, ?_, ?_, ?_⟩
  · refine h.books.move (by simp [hstage]) (by simp [hstage]) (s := .delivered) (by decide)
      (fun _ => rfl) rfl rfl (fun d e => ?_) (by simp [hstage, Stage.listed, Event.forks])
      (by simp [Event.ends]) hnext (by simp [hmagic]) htrace
    simp only [ForkJoin.discard, ForkJoin.book, Event.settles, hi, List.countP_cons,
      List.countP_nil]
    grind
  · obtain ⟨hp, hn, hwait, harr⟩ := h.tracks
    exact ⟨hp.trans hparent.symm, hn.trans hcount.symm, hwaiting ▸ hwait, harrived ▸ harr⟩
  · rw [hcontrol]
    exact h.busy_step halone hw rfl rfl (fun _ _ => rfl) (.inr ⟨hq, fun he => by cases he⟩)

/-- `apply_inlet`, which also throws away the inlets of an aborting closure. -/
theorem settle {p : ClosureId} {i : InletClosure} {is : List InletClosure} {e : Event W}
    {q : Control W} (h : σ.Joins J)
    (hfirst : fieldOf σ.closure Closure.completeInlets p = i :: is)
    (he : e = .apply p i ∨ e = .drop p i)
    (hparent : fieldOf σ'.closure Closure.parent = fieldOf σ.closure Closure.parent)
    (hcount : fieldOf σ'.closure Closure.joinCounter = fieldOf σ.closure Closure.joinCounter)
    (hwaiting : fieldOf σ'.closure Closure.incompleteInlets =
      fieldOf σ.closure Closure.incompleteInlets)
    (harrived : fieldOf σ'.closure Closure.completeInlets =
      Function.update (fieldOf σ.closure Closure.completeInlets) p is)
    (hnext : σ'.nextClosure = σ.nextClosure)
    (hmagic : fieldOf σ'.closure Closure.magic = fieldOf σ.closure Closure.magic)
    (htrace : Event.Says [e] σ.trace σ'.trace)
    (hcontrol : σ'.control = Function.update σ.control w q)
    (hq : q.child = (σ.control w).child) : ∃ J', σ'.Joins J' := by
  have hforks : ∀ d c, [e].countP (Event.forks d c) = 0 := fun d c => by
    rcases he with rfl | rfl <;> simp [Event.forks]
  have hends : ∀ c, [e].countP (Event.ends c) = 0 := fun c => by
    rcases he with rfl | rfl <;> simp [Event.ends]
  have hsettles : ∀ d c, [e].countP (Event.settles d c) =
      if d = p ∧ i.this = some c then 1 else 0 := fun d c => by
    rcases he with rfl | rfl
    all_goals
      simp only [Event.settles, List.countP_cons, List.countP_nil]
      grind
  have hbusy : ∀ J' : ForkJoin ClosureId, J'.stage = J.stage → J'.parent = J.parent →
      J'.count = J.count → Busy σ'.control J' := fun J' hs hp hn => by
    rw [hcontrol]
    exact Busy.same ⟨by rw [hs, hp]; exact h.busy.stage, by rw [hs]; exact h.busy.worker,
      by rw [hn]; exact h.busy.counted⟩ hq
  have hbooks : ∀ J' : ForkJoin ClosureId, J'.stage = J.stage → J'.parent = J.parent →
      (∀ d c, J'.settled d c = J.settled d c + [e].countP (Event.settles d c)) → σ'.Books J' := by
    intro J' hs hp hsettled
    obtain ⟨hk, hv, hf, hst, hen, hr⟩ := h.books
    refine ⟨by rw [hs, hnext]; exact hk, by rw [hs, hmagic]; exact hv, fun d c => ?_, fun d c => ?_,
      fun c => ?_, by rw [hp]; exact hr⟩
    · rw [htrace.countP fun _ => Event.forks_of_plain d c, hforks, hf, hs, hp, Nat.add_zero]
    · rw [htrace.countP fun _ => Event.settles_of_plain d c, hst, hsettled]
    · rw [htrace.countP fun _ => Event.ends_of_plain c, hends, hen, hs, Nat.add_zero]
  obtain ⟨hp, hn, hwait, harr⟩ := h.tracks
  rcases hi : i.this with _ | c
  · -- the inlet of `Cilk_exit` is no child's
    refine ⟨J, h.valid, hbooks J rfl rfl fun d c => ?_, ?_, hbusy J rfl rfl rfl⟩
    · rw [hsettles, hi, if_neg (by simp), Nat.add_zero]
    · refine ⟨hp.trans hparent.symm, hn.trans hcount.symm, hwaiting ▸ hwait, fun d => ?_⟩
      rw [harrived, ← harr d]
      by_cases hd : d = p
      · rw [hd, Function.update_self, hfirst, List.filterMap_cons_none hi]
      · rw [Function.update_of_ne hd]
  · have hfirst' : J.arrived p = c :: is.filterMap InletClosure.this := by
      rw [← harr p, hfirst, List.filterMap_cons_some hi]
    refine ⟨J.settle p c (is.filterMap InletClosure.this), h.valid.settle hfirst',
      hbooks _ rfl rfl fun d e => ?_, ?_, hbusy _ rfl rfl rfl⟩
    · rw [hsettles, hi]
      simp only [ForkJoin.settle, ForkJoin.book]
      grind
    · refine ⟨hp.trans hparent.symm, hn.trans hcount.symm, hwaiting ▸ hwait, fun d => ?_⟩
      show _ = Function.update J.arrived p _ d
      rw [harrived]
      by_cases hd : d = p
      · rw [hd, Function.update_self, Function.update_self]
      · rw [Function.update_of_ne hd, Function.update_of_ne hd, harr]

/-- `--parent->join_counter`, before the parent is woken up. -/
theorem uncount {p c : ClosureId} {q : Control W} (h : σ.Joins J) (halone : σ.Alone w p)
    (hw : (σ.control w).child = some (p, c, .delivered))
    (hzero : fieldOf σ.closure Closure.joinCounter p - 1 = 0)
    (hparent : fieldOf σ'.closure Closure.parent = fieldOf σ.closure Closure.parent)
    (hcount : fieldOf σ'.closure Closure.joinCounter =
      Function.update (fieldOf σ.closure Closure.joinCounter) p
        (fieldOf σ.closure Closure.joinCounter p - 1))
    (hwaiting : fieldOf σ'.closure Closure.incompleteInlets =
      fieldOf σ.closure Closure.incompleteInlets)
    (harrived : fieldOf σ'.closure Closure.completeInlets =
      fieldOf σ.closure Closure.completeInlets)
    (hnext : σ'.nextClosure = σ.nextClosure)
    (hmagic : fieldOf σ'.closure Closure.magic = fieldOf σ.closure Closure.magic)
    (htrace : Event.Says [] σ.trace σ'.trace)
    (hcontrol : σ'.control = Function.update σ.control w q)
    (hq : q.child = some (p, c, .counted)) : σ'.Joins (J.uncount p c) := by
  obtain ⟨hpc, hstage⟩ := h.busy.stage w p c _ hw
  refine ⟨h.valid.uncount hpc hstage, ?_, ?_, ?_⟩
  · exact h.books.move (by simp [hstage]) (by simp [hstage]) (s := .counted) (by decide)
      (fun _ => rfl) rfl rfl (fun _ _ => rfl) (by simp [hstage, Stage.listed]) (by simp) hnext
      (by simp [hmagic]) htrace
  · obtain ⟨hp, hn, hwait, harr⟩ := h.tracks
    refine ⟨hp.trans hparent.symm, ?_, hwaiting ▸ hwait, harrived ▸ harr⟩
    rw [hcount, ← hn]
    rfl
  · rw [hcontrol]
    refine h.busy_step halone hw rfl rfl (fun d hd => Function.update_of_ne hd ..) (.inr ⟨hq, ?_⟩)
    intro _
    rw [show (J.uncount p c).count p = J.count p - 1 from Function.update_self .., h.tracks.count]
    exact hzero

/-- The end of `Closure_return`. -/
theorem finish {p c : ClosureId} {q : Control W} (h : σ.Joins J) (halone : σ.Alone w p)
    (hw : (σ.control w).child = some (p, c, .counted))
    (hparent : fieldOf σ'.closure Closure.parent = fieldOf σ.closure Closure.parent)
    (hcount : fieldOf σ'.closure Closure.joinCounter = fieldOf σ.closure Closure.joinCounter)
    (hwaiting : fieldOf σ'.closure Closure.incompleteInlets =
      fieldOf σ.closure Closure.incompleteInlets)
    (harrived : fieldOf σ'.closure Closure.completeInlets =
      fieldOf σ.closure Closure.completeInlets)
    (hnext : σ'.nextClosure = σ.nextClosure)
    (hmagic : fieldOf σ'.closure Closure.magic =
      Function.update (fieldOf σ.closure Closure.magic) c false)
    (htrace : Event.Says [.destroy c] σ.trace σ'.trace)
    (hcontrol : σ'.control = Function.update σ.control w q) (hq : q.child = none) :
    σ'.Joins (J.finish c) := by
  obtain ⟨hpc, hstage⟩ := h.busy.stage w p c _ hw
  refine ⟨h.valid.finish (.inl hstage), ?_, ?_, ?_⟩
  · refine h.books.move (by simp [hstage]) (by simp [hstage]) (s := .ended) (by decide)
      (fun _ => rfl) rfl rfl (fun _ _ => rfl) (by simp [hstage, Stage.listed, Event.forks]) ?_
      hnext ?_ htrace
    · intro d
      simp [Event.ends, eq_comm]
    · intro d
      rw [hmagic, Function.update_apply]
      simp
  · obtain ⟨hp, hn, hwait, harr⟩ := h.tracks
    exact ⟨hp.trans hparent.symm, hn.trans hcount.symm, hwaiting ▸ hwait, harrived ▸ harr⟩
  · rw [hcontrol]
    exact h.busy_step halone hw rfl rfl (fun _ _ => rfl) (.inl ⟨hq, by decide, rfl⟩)

/-- The end of `Closure_return` of a child that is still counted. -/
theorem leave {p c : ClosureId} {q : Control W} (h : σ.Joins J) (halone : σ.Alone w p)
    (hw : (σ.control w).child = some (p, c, .delivered))
    (hparent : fieldOf σ'.closure Closure.parent = fieldOf σ.closure Closure.parent)
    (hcount : fieldOf σ'.closure Closure.joinCounter =
      Function.update (fieldOf σ.closure Closure.joinCounter) p
        (fieldOf σ.closure Closure.joinCounter p - 1))
    (hwaiting : fieldOf σ'.closure Closure.incompleteInlets =
      fieldOf σ.closure Closure.incompleteInlets)
    (harrived : fieldOf σ'.closure Closure.completeInlets =
      fieldOf σ.closure Closure.completeInlets)
    (hnext : σ'.nextClosure = σ.nextClosure)
    (hmagic : fieldOf σ'.closure Closure.magic =
      Function.update (fieldOf σ.closure Closure.magic) c false)
    (htrace : Event.Says [.destroy c] σ.trace σ'.trace)
    (hcontrol : σ'.control = Function.update σ.control w q) (hq : q.child = none) :
    σ'.Joins ((J.uncount p c).finish c) := by
  obtain ⟨hpc, hstage⟩ := h.busy.stage w p c _ hw
  have hstage' : ((J.uncount p c).finish c).stage = Function.update J.stage c .ended :=
    Function.update_idem ..
  refine ⟨(h.valid.uncount hpc hstage).finish (.inl (Function.update_self ..)), ?_, ?_, ?_⟩
  · refine h.books.move (by simp [hstage]) (by simp [hstage]) (s := .ended) (by decide)
      (fun _ => rfl) rfl hstage' (fun _ _ => rfl) (by simp [hstage, Stage.listed, Event.forks])
      ?_ hnext ?_ htrace
    · intro d
      simp [Event.ends, eq_comm]
    · intro d
      rw [hmagic, Function.update_apply]
      simp
  · obtain ⟨hp, hn, hwait, harr⟩ := h.tracks
    refine ⟨hp.trans hparent.symm, ?_, hwaiting ▸ hwait, harrived ▸ harr⟩
    rw [hcount, ← hn]
    rfl
  · rw [hcontrol]
    exact h.busy_step halone hw rfl hstage' (fun d hd => Function.update_of_ne hd ..)
      (.inl ⟨hq, by decide, rfl⟩)

/-- The end of `invoke_main`. -/
theorem finishRoot {q : Control W} (h : σ.Joins J)
    (hlive : fieldOf σ.closure Closure.magic rootClosure = true)
    (hw : (σ.control w).child = none)
    (hparent : fieldOf σ'.closure Closure.parent = fieldOf σ.closure Closure.parent)
    (hcount : fieldOf σ'.closure Closure.joinCounter = fieldOf σ.closure Closure.joinCounter)
    (hwaiting : fieldOf σ'.closure Closure.incompleteInlets =
      fieldOf σ.closure Closure.incompleteInlets)
    (harrived : fieldOf σ'.closure Closure.completeInlets =
      fieldOf σ.closure Closure.completeInlets)
    (hnext : σ'.nextClosure = σ.nextClosure)
    (hmagic : fieldOf σ'.closure Closure.magic =
      Function.update (fieldOf σ.closure Closure.magic) rootClosure false)
    (htrace : Event.Says [.destroy rootClosure] σ.trace σ'.trace)
    (hcontrol : σ'.control = Function.update σ.control w q) (hq : q.child = none) :
    σ'.Joins (J.finish rootClosure) := by
  have hroot := h.books.root
  have hbusy : ∀ u p d s, (σ.control u).child = some (p, d, s) → d ≠ rootClosure := by
    rintro u p d s hu rfl
    rw [(h.busy.stage u p _ s hu).1] at hroot
    cases hroot
  have hstage : J.stage rootClosure = .waiting := by
    have hlive := (h.books.live _).mp hlive
    have hway : ¬ (J.stage rootClosure = .forked ∨ (J.stage rootClosure).homing = true) := by
      intro hway
      obtain ⟨u, p, s, hu⟩ := h.busy.worker _ hway
      exact hbusy u p _ s hu rfl
    rcases hs : J.stage rootClosure <;> simp_all [Stage.homing]
  refine ⟨h.valid.finish (.inr ⟨hroot, hstage⟩), ?_, ?_, ?_⟩
  · refine h.books.move (by simp [hstage]) (by simp [hstage]) (s := .ended) (by decide)
      (fun _ => rfl) rfl rfl (fun _ _ => rfl) (by simp [hstage, Stage.listed, Event.forks]) ?_
      hnext ?_ htrace
    · intro d
      simp [Event.ends, eq_comm]
    · intro d
      rw [hmagic, Function.update_apply]
      simp
  · obtain ⟨hp, hn, hwait, harr⟩ := h.tracks
    exact ⟨hp.trans hparent.symm, hn.trans hcount.symm, hwaiting ▸ hwait, harrived ▸ harr⟩
  · rw [hcontrol]
    refine h.busy.step (c := rootClosure) ?_ ?_ ?_ ?_ ?_ ?_
    · exact fun u _ p d s hd => ⟨hbusy u p d s hd, rfl⟩
    · intro p d s hd
      rw [hw] at hd
      cases hd
    · exact fun _ _ => rfl
    · exact fun d hd => Function.update_of_ne hd ..
    · intro p d s hd
      rw [hq] at hd
      cases hd
    · intro _
      have hend : (J.finish rootClosure).stage rootClosure = .ended := by
        simp [ForkJoin.finish, ForkJoin.setStage]
      rw [hend]
      exact ⟨by decide, rfl⟩

/-- The end of `complete_and_enque_inlet`. -/
theorem enqueued {p c : ClosureId} {i : InletClosure} {σ₁ : State W} (h : σ.Joins J)
    (hl : σ.LocksHeld) (hc : σ.control w = .returnChild c p i) (hi : i.this = some c)
    (henq : Enqueued cfg w p c i (σ.lockClosure w c) σ₁) :
    ∃ J', (σ₁.goto w (.poll (.closureReturn c p))).Joins J' := by
  have hw : (σ.control w).child = some (p, c, .carried) := by rw [hc]; rfl
  have halone := hl.alone_of_child hw
  cases henq
  case dropped =>
    refine ⟨_, h.discard halone hw (i := i.withValue (σ.closure c).returnValue) (by simpa using hi)
      (by simp) (by simp) (by simp) (by simp) (by simp) (by simp) ?_ (by simp; rfl) rfl⟩
    simp
    split
    · exact .cons _ (.plain rfl (.plain rfl (.plain rfl (.refl _))))
    · exact .cons _ (.plain rfl (.plain rfl (.refl _)))
  case enqueued =>
    refine ⟨_, h.deliver halone hw (i := i.withValue (σ.closure c).returnValue) (by simpa using hi)
      (by simp) (by simp) (by simp) (by simp) (by simp) (by simp) ?_ (by simp; rfl) rfl⟩
    simp
    split
    · exact .plain rfl (.plain rfl (.refl _))
    · exact .plain rfl (.refl _)

/-- Detaching a running closure promotes a child and registers it at once. -/
theorem detach {p : ClosureId} {args : Bytes} (h : σ.Joins J) (hp : p < σ.nextClosure)
    (hw : fieldOf σ.closure Closure.status p = .running → (σ.control w).child = none)
    (halone : σ.Alone w p) : ∃ J', (σ.detachFromInlet cfg w p args).Joins J' := by
  unfold detachFromInlet
  split
  case isFalse => exact ⟨J, h⟩
  case isTrue hif =>
    have hrun : fieldOf σ.closure Closure.status p = .running := by
      simpa [isRunning] using (Bool.and_eq_true_iff.mp hif).1
    have h₁ : (((σ.promoteChild cfg w p w).emit (.detach w ((σ.cache w).stack (σ.cache w).head)
        ((σ.cache w).stack ((σ.cache w).head + 1)))).goto w (.finishPromote p σ.nextClosure)).Joins
          (J.fork p σ.nextClosure) :=
      h.fork (w := w) hp (hw hrun) (by simp) (by simp) (by simp) (by simp) (by simp) (by simp)
        (.plain rfl (.plain rfl (.refl _))) (by simp; rfl) rfl
    refine ⟨_, h₁.register (w := w) (c := σ.nextClosure) (q := σ.control w)
      (halone.update (by simp; rfl)) (by simp [Control.child]) ?_ (by simp) (by simp)
      (by simp; rfl) (by simp) (by simp) (by simp) ?_ ?_ (hw hrun)⟩
    · rfl
    · exact .cons _ (.plain rfl (.plain rfl (.plain rfl (.refl _))))
    · simp

end Joins

/-! ## Steps that the books do not see -/

/-- A step of `w` that does nothing to children, and whose events are quiet. -/
structure Unseen (w : W) (σ σ' : State W) : Prop where
  parent : fieldOf σ'.closure Closure.parent = fieldOf σ.closure Closure.parent
  count : fieldOf σ'.closure Closure.joinCounter = fieldOf σ.closure Closure.joinCounter
  waiting : fieldOf σ'.closure Closure.incompleteInlets =
    fieldOf σ.closure Closure.incompleteInlets
  arrived : ∀ p, (fieldOf σ'.closure Closure.completeInlets p).filterMap InletClosure.this =
    (fieldOf σ.closure Closure.completeInlets p).filterMap InletClosure.this
  next : σ'.nextClosure = σ.nextClosure
  magic : fieldOf σ'.closure Closure.magic = fieldOf σ.closure Closure.magic
  trace : TransitionSystem.Extends (fun e => e.quiet = true) σ.trace σ'.trace
  control : ∃ q : Control W, σ'.control = Function.update σ.control w q ∧
    q.child = (σ.control w).child

/-- The protocol goes on as it was. -/
theorem Unseen.joins (hu : Unseen w σ σ') (h : σ.Joins J) : σ'.Joins J := by
  obtain ⟨q, hcontrol, hq⟩ := hu.control
  exact h.keep hu.parent hu.count hu.waiting hu.arrived hu.next hu.magic
    (Event.says_of_extends hu.trace) hcontrol hq

/-- The step of worker `w` that comes next can be one that the books see. -/
def Seen (σ : State W) (w : W) : Prop :=
  match σ.control w with
  | .promote _ _ | .finishPromote _ _ | .returnLock _ | .returnChild _ _ _ | .remove => True
  | .poll k => k.asks = true ∨ (σ.closure k.closure).completeInlets ≠ []
  | _ => False

/-- The exception handler changes nothing of children. -/
theorem Unseen.handled {t : ClosureId} {g : FrameId} {r : Bytes} {σ₁ : State W}
    (hσ₁ : σ₁ = σ.pollDone t ∨ σ₁ = σ.lockClosure w t) (hchild : (σ.control w).child = none)
    (hσ' : Handled w t g r (σ₁.resetExceptionPointer t) σ') : Unseen w σ σ' := by
  rcases hσ₁ with rfl | rfl <;> cases hσ'
  all_goals
    refine ⟨by simp, by simp, by simp, by simp, by simp, by simp, ?_, _, by simp; rfl, ?_⟩
    · simp
      try split
      all_goals
        repeat' first
          | exact .refl _
          | refine .cons rfl ?_
    · exact hchild.symm

/-- **Every other step is one that the books do not see.** -/
theorem Unseen.of_transition (ht : Transition cfg w σ σ') (hw : ¬ σ.Seen w) :
    Unseen w σ σ' := by
  cases ht
  case promote hc | finishPromote hc _ | lockParent hc _ _ _ | remove hc _ _ |
      returnRunning hc _ _ _ | returnPoll hc _ _ _ =>
    exact absurd (by simp [Seen, hc]) hw
  case pollSuspend hc _ _ | pollSynced hc _ _ | pollWait hc _ _ _ | pollReturn hc _ _ |
      pollWake hc _ =>
    exact absurd (by simp [Seen, hc, PollCaller.asks]) hw
  case inletDrop hc hnext _ | inletApply hc hnext _ _ | inletAbort hc hnext _ _ _ =>
    refine absurd ?_ hw
    simp only [Seen, hc, hnext]
    exact .inr (List.cons_ne_nil _ _)
  case stealNone =>
    exact ⟨rfl, rfl, rfl, fun _ => rfl, rfl, rfl, .refl _, _,
      (Function.update_eq_self ..).symm, rfl⟩
  case leave hc _ =>
    refine ⟨rfl, rfl, rfl, fun _ => rfl, rfl, rfl, .refl _, _, rfl, ?_⟩
    rcases hc with hc | hc <;> simp [Control.child, hc]
  case walkDone k i hc =>
    cases i
    all_goals
      refine ⟨rfl, rfl, rfl, fun _ => rfl, rfl, rfl, ?_, _, rfl, by simp [Control.child, hc]⟩
      repeat' first
        | exact .refl _
        | refine .cons rfl ?_
  case slowAbort t hc _ =>
    refine ⟨by simp, by simp, by simp, by simp, by simp, by simp, ?_, _, by simp; rfl,
      by simp [Control.child, PollCaller.child, hc]⟩
    rw [trace_startAbort]
    exact .cons rfl (.refl _)
  case exitRunning res args hc _ _ _ | exitPoll res args hc _ _ _ =>
    refine ⟨by simp, by simp, by simp, fun p => ?_, by simp, by simp, ?_, _, by simp; rfl,
      by simp [Control.child, PollCaller.child, hc]⟩
    · simp
      by_cases hp : p = rootClosure
      · rw [hp, Function.update_self]
        exact List.filterMap_cons_none rfl
      · rw [Function.update_of_ne hp]
    · exact .cons rfl (.cons rfl (.cons rfl (.cons rfl (.refl _))))
  case pollHandler hc _ _ hσ' => exact .handled (.inl rfl) (by rw [hc]; rfl) hσ'
  case handlerRelock hc _ hσ' => exact .handled (.inr rfl) (by rw [hc]; rfl) hσ'
  all_goals
    refine ⟨by simp, by simp, by simp, by simp, by simp, by simp, ?_, _, by simp; rfl,
      by simp [Control.child, PollCaller.child, *]⟩
    simp
    try split
    all_goals
      repeat' first
        | exact .refl _
        | refine .cons rfl ?_

namespace Joins

/-- **Every transition is a move of the protocol**, a few of them, or none. -/
theorem transition (h : σ.Joins J) (hsound : σ.Sound) (ha : σ.Aborting) (hs : σ.Stacked)
    (hf : σ.Framed) (ht : Transition cfg w σ σ') : ∃ J', σ'.Joins J' := by
  obtain ⟨hn, hl, hstopped, hv⟩ := hsound
  have hw := hn.control w
  by_cases hseen : σ.Seen w
  case neg => exact ⟨J, (Unseen.of_transition ht hseen).joins h⟩
  cases ht
  case promote v cl hc =>
    have hcl : cl < σ.nextClosure := hw cl (by simp [hc, Control.closures])
    refine ⟨_, h.fork (w := w) hcl (by rw [hc]; rfl) (by simp) (by simp) (by simp) (by simp)
      (by simp) (by simp) ?_ (by simp; rfl) rfl⟩
    exact .plain rfl (.plain rfl (.refl _))
  case finishPromote p c args hc _ =>
    have hw : (σ.control w).child = some (p, c, .forked) := by rw [hc]; rfl
    refine ⟨_, h.register (hl.alone_of_child hw) hw ?_ (by simp) (by simp)
      (by simp; rfl) (by simp) (by simp) (by simp) ?_ (by simp; rfl) rfl⟩
    · rfl
    · exact .plain rfl (.cons _ (.plain rfl (.plain rfl (.plain rfl (.refl _)))))
  case inletDrop k i rest hc hnext _ =>
    refine h.settle (w := w) (q := σ.control w) (e := .drop k.closure i) hnext (.inr rfl) (by simp)
      (by simp) (by simp) (by simp) (by simp) (by simp) ?_ (Function.update_eq_self ..).symm rfl
    exact .cons _ (.plain rfl (.plain rfl (.refl _)))
  case inletApply k i rest hc hnext _ _ =>
    refine h.settle (w := w) (q := σ.control w) (e := .apply k.closure i) hnext (.inl rfl) (by simp)
      (by simp) (by simp) (by simp) (by simp) (by simp) ?_ (Function.update_eq_self ..).symm rfl
    exact .plain rfl (.plain rfl (.cons _ (.plain rfl (.refl _))))
  case inletAbort k i rest args hc hnext _ _ _ =>
    have hsettle : ∃ J', ((σ.setComplete k.closure rest).runInlet cfg w k.closure i).Joins J' :=
      h.settle (w := w) (q := σ.control w) (e := .apply k.closure i) hnext (.inl rfl) (by simp)
        (by simp) (by simp) (by simp) (by simp) (by simp) (.cons _ (.plain rfl (.refl _)))
        (Function.update_eq_self ..).symm rfl
    obtain ⟨J₁, h₁⟩ := hsettle
    have hk : (σ.control w).polling = some k := congrArg Control.polling hc
    have hchild : fieldOf σ.closure Closure.status k.closure = .running →
        (σ.control w).child = none := by
      intro hrun
      rw [hc]
      cases k
      case closureReturn | provablyGood => exact absurd hrun (hstopped w _ hk rfl)
      all_goals rfl
    have halone : σ.Alone w k.closure :=
      hl.alone (.inr ((hl.held.mem_held w _).mp (Control.mem_held_of_polling hk)))
    have hdetach : ∃ J', (((σ.setComplete k.closure rest).runInlet cfg w k.closure
        i).detachFromInlet cfg w k.closure args).Joins J' :=
      h₁.detach (hw _ (by rw [hc]; exact k.closure_mem)) (by simpa using hchild) halone
    obtain ⟨J₂, h₂⟩ := hdetach
    refine ⟨J₂, h₂.keep (w := w) (by simp) (by simp) (by simp) (by simp) (by simp) (by simp) ?_
      (by simp; rfl) ?_⟩
    · rw [trace_startAbort]
      exact .plain rfl (.refl _)
    · simp [Control.child, hc]
  case lockParent c p i is hc hp hfree hi =>
    exact ⟨_, h.remove (w := w) hl (by rw [hc]; rfl) hp hfree hi (by simp) (by simp) (by simp)
      (by simp) (by simp) (by simp) (.refl _) (by simp; rfl) rfl⟩
  case returnRunning c p i σ₁ hc hfree hσ' _ =>
    obtain ⟨J₁, h₁⟩ := h.enqueued hl hc (ha.returning w c p i hc) hσ'
    have halone := hl.alone_of_child (w := w) (c := c) (p := p) (s := .carried) (by rw [hc]; rfl)
    have hσ₁ : σ₁.control = σ.control := by cases hσ' <;> rfl
    refine ⟨_, h₁.leave (w := w) (c := c) (halone.update (q := .poll (.closureReturn c p))
      (by simp [hσ₁])) (by simp [Control.child, PollCaller.child]) (by simp) (by simp) (by simp)
      (by simp) (by simp) (by simp) ?_ (by simp; rfl) rfl⟩
    exact .plain rfl (.cons _ (.refl _))
  case returnPoll c p i σ₁ hc hfree hσ' _ =>
    exact h.enqueued hl hc (ha.returning w c p i hc) hσ'
  case pollWait c p hc _ hchildren _ =>
    have hw : (σ.control w).child = some (p, c, .delivered) := by rw [hc]; rfl
    exact ⟨_, h.uncount (hl.alone_of_child hw) hw hchildren (by simp) (by simp) (by simp) (by simp)
      (by simp) (by simp) (.refl _) (by simp; rfl) rfl⟩
  case pollReturn c p hc _ _ =>
    have hw : (σ.control w).child = some (p, c, .delivered) := by rw [hc]; rfl
    refine ⟨_, h.leave (hl.alone_of_child hw) hw (by simp) (by simp) (by simp) (by simp)
      (by simp) (by simp) ?_ (by simp; rfl) rfl⟩
    exact .plain rfl (.cons _ (.refl _))
  case pollWake c p hc _ =>
    have hw : (σ.control w).child = some (p, c, .counted) := by rw [hc]; rfl
    refine ⟨_, h.finish (hl.alone_of_child hw) hw (by simp) (by simp) (by simp) (by simp)
      (by simp) (by simp) ?_ (by simp; rfl) rfl⟩
    exact .plain rfl (.cons _ (.plain rfl (.refl _)))
  case remove t hc _ hb =>
    have ht := hf.eq_root_of_remove hs hv hc hb
    subst ht
    have hlive := (hv.custody.holds_live (.inl (List.mem_of_getLast? hb))).1
    refine ⟨_, h.finishRoot (w := w) hlive (by rw [hc]; rfl) (by simp) (by simp) (by simp)
      (by simp) (by simp) (by simp) ?_ (by simp; rfl) rfl⟩
    exact .cons _ (.plain rfl (.refl _))
  case pollSuspend t hc _ _ | pollSynced t hc _ _ =>
    refine ⟨J, h.keep (w := w) (by simp) (by simp) (by simp) (by simp) (by simp) (by simp) ?_
      (by simp; rfl) (by simp [Control.child, PollCaller.child, hc])⟩
    first | exact .refl _ | exact .plain rfl (.refl _)
  case leave hc _ => rcases hc with hc | hc <;> simp [Seen, hc] at hseen
  -- no other step begins where the books could see it
  all_goals simp_all [Seen, PollCaller.asks, PollCaller.closure]

/-- At the start there is the root closure only, and nothing is known of it. -/
theorem init (w₀ : W) : ∃ J, (State.init cfg w₀).Joins J := by
  refine ⟨⟨fun c => if c = rootClosure then .waiting else .unknown, fun _ => none, fun _ => 0,
    fun _ => [], fun _ => [], fun _ _ => 0⟩, ?_, ?_, ?_, ?_⟩
  · constructor <;> simp
  · refine ⟨fun c => ?_, fun c => ?_, fun _ _ => rfl, fun _ _ => rfl, fun c => ?_, rfl⟩
    · by_cases hc : c = rootClosure
      · simp [hc, State.init]
      · simpa [hc, State.init] using Nat.one_le_iff_ne_zero.mpr hc
    · by_cases hc : c = rootClosure <;> simp [hc, State.init, fieldOf]
    · by_cases hc : c = rootClosure <;> simp [hc, State.init]
  · exact ⟨rfl, rfl, fun _ => rfl, fun _ => rfl⟩
  · have hnone : ∀ w, ((State.init cfg w₀).control w).child = none := by
      intro w
      simp only [State.init]
      split <;> rfl
    refine ⟨fun w p c s hw => ?_, fun c hc => ?_, fun w p c hw => ?_⟩
    · rw [hnone] at hw
      cases hw
    · by_cases h : c = rootClosure <;> simp [h, Stage.homing] at hc
    · rw [hnone] at hw

/-- Every reachable state is in step with some state of the protocol. -/
theorem reachable {w₀ : W} (h : (scheduler cfg w₀).Reachable σ) : ∃ J, σ.Joins J :=
  h.invariant (P := fun σ => ∃ J, σ.Joins J) (init w₀) fun _ _ _ hr ⟨_, h⟩ hst =>
    h.transition (Sound.reachable hr) (Aborting.reachable hr) (Stacked.reachable hr)
      (Framed.reachable hr) (transition_of_step hst)

/-! ## What the protocol says of the closures -/

omit [DecidableEq W] in
/-- The list of children is that of the protocol. -/
theorem children_eq (h : σ.Joins J) (p : ClosureId) : (σ.closure p).children = J.waiting p := by
  have hmap := h.tracks.waiting p
  rw [Closure.children, incompleteInlets_closure]
  calc (fieldOf σ.closure Closure.incompleteInlets p).filterMap InletClosure.this
      = ((fieldOf σ.closure Closure.incompleteInlets p).map InletClosure.this).filterMap id := by
        rw [List.filterMap_map, Function.id_comp]
    _ = J.waiting p := by rw [hmap, List.filterMap_map, Function.id_comp, List.filterMap_some]

omit [DecidableEq W] in
/-- A promoted child was put on the list of its parent. -/
theorem mem_forks (h : σ.Joins J) {p c : ClosureId} :
    .promoted p c ∈ σ.trace ↔ J.parent c = some p ∧ (J.stage c).listed = true := by
  have hcount := h.books.forked p c
  have hmem : .promoted p c ∈ σ.trace ↔ 0 < σ.trace.countP (Event.forks p c) := by
    rw [List.countP_pos_iff]
    constructor
    · intro hm
      exact ⟨_, hm, by simp [Event.forks]⟩
    · rintro ⟨e, hm, he⟩
      cases e <;> simp [Event.forks] at he
      obtain ⟨rfl, rfl⟩ := he
      exact hm
  rw [hmem, hcount]
  split_ifs with hif <;> simp [hif]

omit [DecidableEq W] in
/-- A destroyed closure is at the end of its way. -/
theorem mem_ends (h : σ.Joins J) {c : ClosureId} : .destroy c ∈ σ.trace ↔ J.stage c = .ended := by
  have hcount := h.books.ended c
  have hmem : .destroy c ∈ σ.trace ↔ 0 < σ.trace.countP (Event.ends c) := by
    rw [List.countP_pos_iff]
    constructor
    · intro hm
      exact ⟨_, hm, by simp [Event.ends]⟩
    · rintro ⟨e, hm, he⟩
      cases e <;> simp [Event.ends] at he
      exact he ▸ hm
  rw [hmem, hcount]
  split_ifs with hif <;> simp [hif]

end Joins

end State

end Cilk
