import Cilk.Scheduler.Syncs

/-!
# The walks of an abort

`recursively_signal_abort` goes from a closure to its children, and holds the
locks of all closures it is inside of. What it has yet to visit are children
of the closures on its path, and the path descends in the tree of closures, so
it locks a parent before its children, and never the child that its own
`Closure_return` has taken off the list.

The tree hangs from the root closure, which nobody walks to. It is not
aborted, its frame stays, and it never returns.
-/

namespace Cilk

variable {W : Type}

/-- The path of a walk that started at `r`: each closure is a child of the one
below, with the children it has yet to visit. -/
def Descends (parent : ClosureId → Option ClosureId) (r : ClosureId) :
    List (ClosureId × List ClosureId) → Prop
  | [] => True
  | (c, ds) :: path => parent c = some ((path.head?.map Prod.fst).getD r) ∧
      (∀ d ∈ ds, parent d = some c) ∧ Descends parent r path

namespace Descends

variable {parent parent' : ClosureId → Option ClosureId} {r c d : ClosureId}
  {ds : List ClosureId} {path : List (ClosureId × List ClosureId)}

/-- A path only depends on the parents of the closures on it. -/
theorem congr (h : Descends parent r path)
    (he : ∀ c ∈ path.flatMap fun d => d.1 :: d.2, parent' c = parent c) :
    Descends parent' r path := by
  induction path with
  | nil => trivial
  | cons e path ih =>
    obtain ⟨c, ds⟩ := e
    obtain ⟨hc, hds, hrest⟩ := h
    rw [List.flatMap_cons] at he
    refine ⟨?_, fun d hd => ?_, ih hrest fun d hd => he d (List.mem_append_right _ hd)⟩
    · rw [he c (by simp), hc]
    · rw [he d (by simp [hd]), hds d hd]

/-- The closure on top is the youngest. -/
theorem lt_top (hold : ∀ c p, parent c = some p → p < c) (h : Descends parent r ((c, ds) :: path))
    (hd : d = r ∨ d ∈ path.map Prod.fst) : d < c := by
  induction path generalizing c ds with
  | nil =>
    rcases hd with rfl | hd
    · exact hold _ _ h.1
    · cases hd
  | cons e path ih =>
    obtain ⟨e, es⟩ := e
    obtain ⟨hc, -, hrest⟩ := h
    have hlt : e < c := hold _ _ hc
    rcases hd with hd | hd
    · exact (ih hrest (.inl hd)).trans hlt
    · rcases List.mem_cons.mp hd with rfl | hd
      · exact hlt
      · exact (ih hrest (.inr hd)).trans hlt

end Descends

/-- What a worker in the walk has before it. -/
def Control.Walks (parent : ClosureId → Option ClosureId) : Control W → Prop
  | abortWalk k _ todo path =>
    (∀ d ∈ todo, parent d = some k.closure ∧ ∀ p c s, k.child = some (p, c, s) → d ≠ c) ∧
    Descends parent k.closure path
  | _ => True

/-- The worker is on its way into `Cilk_set_result`. -/
def Control.setting : Control W → Bool
  | slowDeque (.setResult _) | slowLock (.setResult _) _ => true
  | _ => false

namespace State

/-- The tree of closures, and the walks in it. -/
structure Walking (σ : State W) : Prop where
  older : ∀ c p, fieldOf σ.closure Closure.parent c = some p → p < c
  orphan : ∀ c, c < σ.nextClosure → fieldOf σ.closure Closure.parent c = none → c = rootClosure
  walks : ∀ w, (σ.control w).Walks (fieldOf σ.closure Closure.parent)

variable [DecidableEq W] {cfg : Config} {w : W} {σ σ' : State W} {J : ForkJoin ClosureId}

/-- A closure has its parent from the start. -/
theorem parent_step (hn : σ.Named) (ht : Transition cfg w σ σ') (c : ClosureId) :
    fieldOf σ'.closure Closure.parent c = fieldOf σ.closure Closure.parent c ∧
        (c < σ'.nextClosure → c < σ.nextClosure) ∨
      c = σ.nextClosure ∧ ∃ p, p < c ∧ fieldOf σ'.closure Closure.parent c = some p := by
  have hw := hn.control w
  cases ht
  case promote v cl hc =>
    have hlt : cl < σ.nextClosure := hw cl (by simp [hc, Control.closures])
    by_cases hnew : c = σ.nextClosure
    · exact .inr ⟨hnew, cl, hnew ▸ hlt, by simp [hnew]⟩
    · refine .inl ⟨by simp [hnew], fun h => ?_⟩
      exact (Nat.lt_succ_iff_lt_or_eq.mp (by simpa using h)).resolve_right hnew
  case inletAbort k i rest args hc _ _ _ _ =>
    have hlt : k.closure < σ.nextClosure := hw _ (by rw [hc]; exact k.closure_mem)
    unfold detachFromInlet
    split
    · by_cases hnew : c = σ.nextClosure
      · exact .inr ⟨hnew, k.closure, hnew ▸ hlt, by simp [hnew]⟩
      · refine .inl ⟨by simp [hnew], fun h => ?_⟩
        exact (Nat.lt_succ_iff_lt_or_eq.mp (by simpa using h)).resolve_right hnew
    · exact .inl (by simp)
  case pollHandler hσ' | handlerRelock hσ' => cases hσ' <;> exact .inl (by simp)
  case returnRunning hσ' _ | returnPoll hσ' _ => cases hσ' <;> exact .inl (by simp)
  case walkDone i _ => cases i <;> exact .inl ⟨rfl, id⟩
  all_goals exact .inl (by simp)

omit [DecidableEq W] in
/-- Children know their parent. -/
theorem Joins.parent_of_mem (h : σ.Joins J) {c d : ClosureId} (hd : d ∈ (σ.closure c).children) :
    fieldOf σ.closure Closure.parent d = some c ∧ J.stage d = .waiting := by
  rw [h.children_eq, h.valid.mem_waiting, h.tracks.parent] at hd
  exact hd

omit [DecidableEq W] in
/-- A walk starts with all the children of the closure. -/
theorem Joins.walks_of_start {k : PollCaller} {i : Option InletClosure} (h : σ.Joins J)
    (hc : σ.control w = .abortWalk k i (σ.closure k.closure).children []) :
    (σ.control w).Walks (fieldOf σ.closure Closure.parent) := by
  rw [hc]
  refine ⟨fun d hd => ?_, trivial⟩
  obtain ⟨hparent, hstage⟩ := h.parent_of_mem hd
  refine ⟨hparent, ?_⟩
  rintro p c s hk rfl
  have hs := (h.busy.stage w p d s (by rw [hc]; exact hk)).2
  rw [hstage] at hs
  subst hs
  cases k <;> simp [PollCaller.child] at hk

namespace Walking

theorem transition (h : σ.Walking) (hn : σ.Named) (hj : σ.Joins J) {J' : ForkJoin ClosureId}
    (hj' : σ'.Joins J') (ht : Transition cfg w σ σ') : σ'.Walking := by
  have hparent : ∀ c, c < σ.nextClosure →
      fieldOf σ'.closure Closure.parent c = fieldOf σ.closure Closure.parent c := fun c hc =>
    ((parent_step hn ht c).resolve_right fun hnew => hc.ne hnew.1).1
  -- what is known of a control stays known
  have hkeep : ∀ (p : Control W), (∀ c ∈ p.closures, c < σ.nextClosure) →
      p.Walks (fieldOf σ.closure Closure.parent) →
      p.Walks (fieldOf σ'.closure Closure.parent) := by
    intro p hp hwalks
    cases p
    case abortWalk k i todo path =>
      refine ⟨fun d hd => ?_, hwalks.2.congr fun c hc => hparent c (hp c ?_)⟩
      · rw [hparent d (hp d (by simp [Control.closures, hd]))]
        exact hwalks.1 d hd
      · exact List.mem_append_right _ hc
    all_goals trivial
  constructor
  case older =>
    intro c p hp
    rcases parent_step hn ht c with ⟨he, -⟩ | ⟨-, q, hq, he⟩
    · exact h.older c p (he ▸ hp)
    · cases he.symm.trans hp
      exact hq
  case orphan =>
    intro c hc hnone
    rcases parent_step hn ht c with ⟨he, hlt⟩ | ⟨-, q, -, he⟩
    · exact h.orphan c (hlt hc) (he ▸ hnone)
    · cases he.symm.trans hnone
  case walks =>
    intro u
    by_cases hu : u = w
    · subst hu
      have hw := h.walks u
      cases ht
      case walkFirst k i d ds hc _ =>
        rw [hc] at hw
        obtain ⟨htodo, -⟩ := hw
        have hmem := fun e => hj.parent_of_mem (c := d) (d := e)
        simp [Control.Walks, Descends]
        exact ⟨fun e he => htodo e (List.mem_cons_of_mem _ he),
          (htodo d List.mem_cons_self).1, fun e he => (hmem e he).1⟩
      case walkDown k i todo c d ds path hc _ =>
        rw [hc] at hw
        obtain ⟨htodo, hpc, hds, hpath⟩ := hw
        have hmem := fun e => hj.parent_of_mem (c := d) (d := e)
        simp [Control.Walks, Descends]
        exact ⟨htodo, hds d List.mem_cons_self, fun e he => (hmem e he).1, hpc,
          fun e he => hds e (List.mem_cons_of_mem _ he), hpath⟩
      case walkUp k i todo c path hc =>
        rw [hc] at hw
        obtain ⟨htodo, -, -, hpath⟩ := hw
        simp [Control.Walks]
        exact ⟨htodo, hpath⟩
      case inletAbort | slowAbort => exact hj'.walks_of_start (Function.update_self ..)
      case stealNone => exact hw
      case pollHandler hσ' | handlerRelock hσ' => cases hσ' <;> simp [Control.Walks]
      case returnRunning hσ' _ | returnPoll hσ' _ => cases hσ' <;> simp [Control.Walks]
      case walkDone i _ => cases i <;> simp [Control.Walks]
      all_goals simp [Control.Walks, *]
    · rw [control_step hu ht]
      exact hkeep _ (hn.control u) (h.walks u)

theorem init (w₀ : W) : (State.init cfg w₀).Walking where
  older c p hp := by cases hp
  orphan c hc _ := Nat.lt_one_iff.mp hc
  walks w := by
    simp only [State.init]
    split <;> trivial

theorem reachable {w₀ : W} (h : (scheduler cfg w₀).Reachable σ) : σ.Walking := by
  refine h.invariant (init w₀) fun τ τ' a hr h hst => ?_
  obtain ⟨J, hj⟩ := Joins.reachable hr
  obtain ⟨J', hj'⟩ := Joins.reachable (hr.step a hst)
  exact h.transition (Named.reachable hr) hj hj' (transition_of_step hst)

end Walking

/-! ## The root closure -/

/-- The root closure keeps its frame, is not aborted and does not return. -/
structure Rooted (σ : State W) : Prop where
  frame : fieldOf σ.closure Closure.frame rootClosure = some rootFrame
  status : fieldOf σ.closure Closure.status rootClosure ≠ .returning
  abortStatus : fieldOf σ.closure Closure.abortStatus rootClosure ≠ .abortAll
  setting : ∀ w, (σ.control w).setting = true →
    fieldOf σ.cache ClosureCache.stack w 0 ≠ rootFrame

namespace Rooted

/-- A step that leaves alone the root closure. -/
theorem keep {q : Control W} (h : σ.Rooted)
    (habort : fieldOf σ'.closure Closure.abortStatus rootClosure ≠ .abortAll)
    (hframe : fieldOf σ'.closure Closure.frame rootClosure =
      fieldOf σ.closure Closure.frame rootClosure)
    (hstatus : fieldOf σ'.closure Closure.status rootClosure = .returning →
      fieldOf σ.closure Closure.status rootClosure = .returning)
    (hstack : fieldOf σ'.cache ClosureCache.stack = fieldOf σ.cache ClosureCache.stack)
    (hcontrol : σ'.control = Function.update σ.control w q)
    (hq : q.setting = true → (σ.control w).setting = true) : σ'.Rooted where
  frame := hframe.trans h.frame
  status hs := h.status (hstatus hs)
  abortStatus := habort
  setting := by
    rw [hstack, hcontrol]
    intro u hu
    rw [Function.update_apply] at hu
    split at hu
    case isTrue he => exact h.setting u (he ▸ hq hu)
    case isFalse => exact h.setting u hu

/-- The exception handler does not make the root closure return. -/
theorem handled {t : ClosureId} {g : FrameId} {r : Bytes} (h : σ.Rooted) (hv : σ.place.Valid)
    (habort : fieldOf σ'.closure Closure.abortStatus rootClosure ≠ .abortAll)
    (hb : σ.place.bottom w = some t) (htail : 1 ≤ σ.place.tail w)
    (hkill : (σ.closure t).abortStatus ≠ .noAbort → t ≠ rootClosure)
    (hσ' : Handled w t g r (σ.resetExceptionPointer t) σ') : σ'.Rooted := by
  cases hσ'
  case returning hstolen hrun =>
    rw [head_resetExceptionPointer, tail_resetExceptionPointer] at hstolen
    -- the frame of the root closure is never popped
    have hne : t ≠ rootClosure := by
      rintro rfl
      have hfast := hv.fast w _ hb (by simpa [place] using hrun)
      exact (hfast (htail.trans hstolen)).2 rfl
    refine h.keep (w := w) habort (by simp) ?_ (by simp [-modifyCacheOf_cache]) (by simp; rfl) ?_
    · simp [hne.symm]
    · simp [Control.setting]
  case discardLast hno _ _ =>
    have hne := hkill (by simpa using hno)
    refine h.keep (w := w) habort (by simp) ?_ (by simp [-modifyCacheOf_cache]) (by simp; rfl) ?_
    · simp [hne.symm]
    · simp [Control.setting]
  all_goals
    refine h.keep (w := w) habort (by simp) ?_ (by simp [-modifyCacheOf_cache]) (by simp; rfl) ?_
    · simp
      try grind
    · simp [Control.setting]

theorem transition (h : σ.Rooted) (hsound : σ.Sound) (hw' : σ'.Walking) (ha : σ.Aborting)
    (hf : σ.Framed) (hj : σ.Joins J) (ht : Transition cfg w σ σ') : σ'.Rooted := by
  obtain ⟨hn, hl, hstopped, hv⟩ := id hsound
  have hrole : σ.place.role w = (σ.control w).role := rfl
  have hown := hv.own w
  have hpos : rootClosure < σ.nextClosure := hn.pos
  have hparent : fieldOf σ'.closure Closure.parent rootClosure = none := by
    rw [((parent_step hn ht rootClosure).resolve_right fun hnew => hpos.ne hnew.1).1,
      ← hj.tracks.parent]
    exact hj.books.root
  have habort : fieldOf σ'.closure Closure.abortStatus rootClosure ≠ .abortAll := by
    intro hall
    cases abortStep hl rootClosure ht with
    | kept hk => exact h.abortStatus (hk.symm.trans hall)
    | created _ hr | reset _ _ hr | requested _ _ _ _ _ hr => cases hr.symm.trans hall
    | marked k i todo path hm _ _ =>
      -- a walk only visits children
      have hwalks := hw'.walks w
      rw [hm] at hwalks
      have hsome := hwalks.2.1
      rw [hparent] at hsome
      cases hsome
  have hkill : ∀ t, (σ.closure t).mutexOwner = none → (σ.closure t).abortStatus ≠ .noAbort →
      t ≠ rootClosure := by
    rintro t hfree hno rfl
    rcases AbortStatus.of_ne_noAbort hno with hall | halmost
    · exact h.abortStatus hall
    · obtain ⟨u, k, hu, hk⟩ := ha.almost _ halmost
      refine hl.held.not_mem_of_free (l := .closure rootClosure) hfree (w := u) ?_
      exact hk ▸ Control.mem_held_of_polling hu
  cases ht
  case setup t hc _ _ _ =>
    refine ⟨by simpa using h.frame, ?_, habort, fun u hu => ?_⟩
    · have hstatus := h.status
      simp
      grind
    · by_cases huw : u = w
      · simp [huw, Control.setting] at hu
      · simpa [huw] using h.setting u (by simpa [huw] using hu)
  case spawn hc _ =>
    rw [hrole, hc] at hown
    obtain ⟨-, -, htail⟩ := hown
    refine ⟨h.frame, h.status, habort, fun u hu => ?_⟩
    by_cases huw : u = w
    · simp [huw, Control.setting] at hu
    · simpa [huw] using h.setting u (by simpa [huw] using hu)
  case callSetResult r hc hdepth hroot _ =>
    refine ⟨h.frame, h.status, habort, fun u hu => ?_⟩
    by_cases huw : u = w
    · rw [topFrame, hdepth] at hroot
      exact huw ▸ hroot
    · exact h.setting u (by simpa [huw] using hu)
  case slowDeque call t hc _ _ =>
    refine h.keep (w := w) habort rfl id rfl (by simp; rfl) ?_
    rw [hc]
    cases call <;> exact id
  case slowSetResult t r hc _ =>
    rw [hrole, hc] at hown
    obtain ⟨hruns, hhead, -⟩ := hown
    have hne : t ≠ rootClosure := by
      rintro rfl
      have hframe := hf.runs w _ hruns
      rw [h.frame, show fieldOf σ.cache ClosureCache.head w = 0 from hhead] at hframe
      exact h.setting w (by rw [hc]; rfl) (Option.some.inj hframe).symm
    refine h.keep (w := w) habort ?_ ?_ (by simp) (by simp; rfl) ?_
    · simp [hne.symm]
    · simp [hne.symm]
    · simp [Control.setting]
  case abortReturn t hc hfree hready hno _ =>
    have hne := hkill t hfree hno
    refine h.keep (w := w) habort (by simp) ?_ (by simp) (by simp; rfl) ?_
    · simp [hne.symm]
    · simp [Control.setting]
  case promote v cl hc =>
    refine h.keep (w := w) habort ?_ ?_ (by simp) (by simp; rfl) ?_
    · simp [hpos.ne]
    · simp [hpos.ne]
    · simp [Control.setting]
  case inletAbort k i rest args hc _ _ _ _ =>
    refine h.keep (w := w) habort ?_ ?_ (by simp) (by simp; rfl) ?_
    · unfold detachFromInlet
      split <;> simp [hpos.ne]
    · unfold detachFromInlet
      split
      · simp
        grind
      · simp
    · simp [Control.setting]
  case pollHandler t g r hc _ hb hσ' =>
    rw [hrole, hc] at hown
    have hτ : (σ.pollDone t).Rooted := by
      refine h.keep (w := w) (q := σ.control w) ?_ (by simp) (by simp) rfl (by simp) id
      have hno := h.abortStatus
      simp
      grind
    have hplace : (σ.pollDone t).place = σ.place := by apply Placement.ext <;> simp [place]
    refine hτ.handled (hplace ▸ hv) habort (hplace ▸ hb) (hplace ▸ hown.2.1) ?_ hσ'
    rintro hno rfl
    have hroot := h.abortStatus
    simp at hno hroot
    rcases hs : fieldOf σ.closure Closure.abortStatus rootClosure <;> simp_all
  case handlerRelock t g r hc hfree hσ' =>
    rw [hrole, hc] at hown
    have hτ : (σ.lockClosure w t).Rooted := by
      refine h.keep (w := w) (q := σ.control w) ?_ (by simp) (by simp) rfl (by simp) id
      simpa using h.abortStatus
    have hplace : (σ.lockClosure w t).place = σ.place := by apply Placement.ext <;> simp [place]
    refine hτ.handled (hplace ▸ hv) habort (hplace ▸ hown.2.elim (·.1.1) (·.1.1))
      (hplace ▸ hown.1) ?_ hσ'
    intro hno
    exact hkill t hfree (by simpa using hno)
  case returnRunning hσ' _ | returnPoll hσ' _ =>
    cases hσ'
    all_goals
      refine h.keep (w := w) habort (by simp) (by simp) (by simp [-modifyCacheOf_cache])
        (by simp; rfl) ?_
      simp [Control.setting]
  case walkDone i _ =>
    cases i
    all_goals
      refine h.keep (w := w) habort rfl id rfl rfl ?_
      simp [Control.setting]
  case leave =>
    refine h.keep (w := w) habort rfl id rfl rfl ?_
    simp [Control.setting]
  case stealNone => exact h
  all_goals
    refine h.keep (w := w) habort (by simp) ?_ (by simp [-modifyCacheOf_cache]) (by simp; rfl) ?_
    · simp
      try grind
    · simp [Control.setting, *]

theorem init (w₀ : W) : (State.init cfg w₀).Rooted where
  frame := rfl
  status := by simp [State.init, fieldOf]
  abortStatus := by simp [State.init, fieldOf]
  setting w hw := by
    rw [show (State.init cfg w₀).control w = if w = w₀ then _ else _ from rfl] at hw
    split at hw <;> cases hw

theorem reachable {w₀ : W} (h : (scheduler cfg w₀).Reachable σ) : σ.Rooted := by
  refine h.invariant (init w₀) fun τ τ' a hr h hst => ?_
  obtain ⟨J, hj⟩ := Joins.reachable hr
  exact h.transition (Sound.reachable hr) (Walking.reachable (hr.step a hst))
    (Aborting.reachable hr) (Framed.reachable hr) hj (transition_of_step hst)

end Rooted

/-- `Closure_remove_child` finds a child that is on the list. -/
theorem isSome_removeChild {c : ClosureId} {l : List InletClosure}
    (hc : c ∈ l.filterMap InletClosure.this) : (removeChild c l).isSome = true := by
  induction l with
  | nil => cases hc
  | cons i is ih =>
    unfold removeChild
    split
    case isTrue => rfl
    case isFalse hi =>
      rw [Option.isSome_map]
      refine ih ?_
      rcases hthis : i.this with _ | d
      · rwa [List.filterMap_cons_none hthis] at hc
      · rw [List.filterMap_cons_some hthis, List.mem_cons] at hc
        exact hc.resolve_left fun he => hi (hthis.trans (congrArg some he.symm))

omit [DecidableEq W] in
/-- A child on its way home is on the list of its parent, once that is not
locked. -/
theorem Joins.mem_children {p c : ClosureId} (h : σ.Joins J) (hl : σ.LocksHeld)
    (hlive : (σ.closure c).magic = true) (hp : (σ.closure c).parent = some p)
    (hfree : (σ.closure p).mutexOwner = none) : c ∈ (σ.closure p).children := by
  have hparent : J.parent c = some p := by
    rw [h.tracks.parent]
    exact hp
  obtain ⟨hforked, hhoming⟩ := h.idle hl hfree hparent
  obtain ⟨hknown, hended⟩ := (h.books.live c).mp hlive
  rw [h.children_eq, h.valid.mem_waiting]
  refine ⟨hparent, ?_⟩
  cases hs : J.stage c <;> simp_all [Stage.homing]

/-- A worker on its way to the lock of the parent has a closure with a parent,
which has the closure on its list once it is not locked. -/
theorem exists_parent_of_returnLock {w₀ : W} (hr : (scheduler cfg w₀).Reachable σ)
    {c : ClosureId} (hc : σ.control w = .returnLock c) :
    ∃ p, (σ.closure c).parent = some p ∧ p < c ∧ ((σ.closure p).mutexOwner = none →
      (removeChild c (σ.closure p).incompleteInlets).isSome = true) := by
  obtain ⟨J, hj⟩ := Joins.reachable hr
  obtain ⟨hn, hl, -, hv⟩ := Sound.reachable hr
  have hwalk := Walking.reachable hr
  have hrole : σ.place.role w = .returning c none := congrArg Control.role hc
  have hown := hv.own w
  rw [hrole] at hown
  have hlive : (σ.closure c).magic = true :=
    (hv.custody.live_of_hand w c (congrArg Role.token hrole)).1
  have hlt : c < σ.nextClosure := hn.control w c (by simp [hc, Control.closures])
  have hne : c ≠ rootClosure := by
    rintro rfl
    exact (Rooted.reachable hr).status hown.2
  obtain ⟨p, hp⟩ := Option.ne_none_iff_exists'.mp fun hnone => hne (hwalk.orphan c hlt hnone)
  refine ⟨p, hp, hwalk.older c p hp, fun hfree => ?_⟩
  exact isSome_removeChild (hj.mem_children hl hlive hp hfree)

end State

section Results

variable [DecidableEq W] {cfg : Config} {w₀ : W} {σ : State W}

/-- **A closure that returns finds itself with its parent.** A worker in
`Closure_return` has a closure with a parent, and where the lock of the parent
is free, `Closure_remove_child` finds the child on its list. -/
theorem returning_child_is_found (hr : (scheduler cfg w₀).Reachable σ) {w : W} {c : ClosureId}
    (hc : σ.control w = .returnLock c) :
    ∃ p, (σ.closure c).parent = some p ∧ p < c ∧ ((σ.closure p).mutexOwner = none →
      (State.removeChild c (σ.closure p).incompleteInlets).isSome = true) :=
  State.exists_parent_of_returnLock hr hc

/-- Worker 0 is about to return the stolen child. -/
theorem returning_child_is_found_woken : ∃ (σ : State (Fin 2)) (p : ClosureId),
    σ.control 0 = .returnLock 1 ∧ (σ.closure 1).parent = some p ∧
    (State.removeChild 1 (σ.closure p).incompleteInlets).isSome = true := by
  obtain ⟨σ, hr, hp⟩ := TransitionSystem.Reachable.of_eval (M := scheduler .small (0 : Fin 2))
    (wakeRoot.take (stealRoot.length + 16))
    (fun σ => σ.control 0 == .returnLock 1 && (σ.closure 1).parent == some 0 &&
      (σ.closure 0).mutexOwner == none) (by decide +kernel)
  simp only [Bool.and_eq_true, beq_iff_eq] at hp
  obtain ⟨⟨hc, hparent⟩, hfree⟩ := hp
  obtain ⟨p, hp, -, hfound⟩ := returning_child_is_found hr hc
  cases hparent.symm.trans hp
  exact ⟨σ, 0, hc, hparent, hfound hfree⟩

end Results

end Cilk
