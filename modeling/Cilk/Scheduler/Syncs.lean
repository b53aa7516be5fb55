import Cilk.Scheduler.Joins

/-!
# Slow syncs

What `Cilk_sync` and a provably good steal rely on: a join counter that is
zero means that every child there ever was has returned, and that what it
brought home was applied to the frame of its parent, or thrown away by an
abort, exactly once. So the code after a sync never runs early.
-/

namespace Cilk

variable {W : Type}

/-- The code of `p` goes on behind a sync: `Cilk_sync` returns 0, or the
suspended closure is woken up. -/
def Event.passes (p : ClosureId) : Event W → Bool
  | synced q | provablyGood q => q = p
  | _ => false

/-- What had happened before the event `e` let `p` go on. That the children
are destroyed is no part of it: `Closure_return` unlocks the parent first. -/
def Event.Joined (e : Event W) (t : List (Event W)) : Prop :=
  ∀ p, e.passes p = true → ∀ c, .promoted p c ∈ t → t.countP (Event.settles p c) = 1

namespace State

variable [DecidableEq W] {cfg : Config} {w : W} {σ σ' : State W} {J : ForkJoin ClosureId}

namespace Joins

omit [DecidableEq W] in
/-- How often what `c` brings home to `p` is there, complete or settled. -/
theorem brought_home (h : σ.Joins J) (p c : ClosureId) :
    ((σ.closure p).completeInlets.filterMap InletClosure.this).count c +
      σ.trace.countP (Event.settles p c) =
    if J.parent c = some p ∧ (J.stage c).brought = true then 1 else 0 := by
  rw [completeInlets_closure, h.tracks.arrived p, h.books.settled p c]
  exact h.valid.brought p c

omit [DecidableEq W] in
/-- A closure that counts no child, with no inlet left to poll. -/
theorem settled_of_zero {p c : ClosureId} (h : σ.Joins J)
    (hzero : (σ.closure p).joinCounter = 0) (hempty : (σ.closure p).completeInlets = [])
    (hc : .promoted p c ∈ σ.trace)
    (hpending : J.parent c = some p → (J.stage c).pending = false) :
    σ.trace.countP (Event.settles p c) = 1 := by
  obtain ⟨hp, hlisted⟩ := h.mem_forks.mp hc
  have harrived : J.arrived p = [] := by
    rw [← h.tracks.arrived p, ← completeInlets_closure, hempty, List.filterMap_nil]
  rw [h.books.settled]
  refine (h.valid.joined ?_ harrived hp hlisted (hpending hp)).2
  rw [h.tracks.count]
  exact hzero

end Joins

omit [DecidableEq W] in
/-- A quiet event lets no closure go on. -/
theorem passes_of_quiet {e : Event W} (he : e.quiet = true) (p : ClosureId) :
    e.passes p = false := by
  cases e <;> simp_all [Event.quiet, Event.plain, Event.passes]

/-- **No sync passes early**, up to now. -/
theorem joined_transition (h : TransitionSystem.Throughout Event.Joined σ.trace)
    (hj : σ.Joins J) (hl : σ.LocksHeld) (ht : Transition cfg w σ σ') :
    TransitionSystem.Throughout Event.Joined σ'.trace := by
  have hother : ∀ (e : Event W) t, (∀ p, e.passes p = false) → e.Joined t := by
    intro e t he p hp
    rw [he p] at hp
    cases hp
  by_cases hseen : σ.Seen w
  case neg =>
    exact h.extend (Unseen.of_transition ht hseen).trace fun e t he =>
      hother e t (passes_of_quiet he)
  -- a child of the polled closure that is not on its way, but for the returning one
  have hidle : ∀ {p c : ClosureId}, J.parent c = some p →
      σ.owner (.closure p) = some w → (∀ q d s, (σ.control w).child = some (q, d, s) → d ≠ c) →
      (J.stage c).homing = false := by
    intro p c hp hown hw
    by_contra hh
    obtain ⟨u, q, s, hu⟩ := hj.busy.worker c (.inr (by simpa using hh))
    cases Option.some.inj ((hj.busy.stage u q c s hu).1.symm.trans hp)
    by_cases huw : u = w
    · exact hw p c s (huw ▸ hu) rfl
    · exact hl.alone (.inr hown) u huw p c s hu rfl
  cases ht
  case pollSynced t hc hempty hchildren =>
    refine TransitionSystem.Throughout.cons h fun p hp c hpc => ?_
    obtain rfl : t = p := by simpa [Event.passes] using hp
    have hown := (hl.held.mem_held w (.closure t)).mp (by simp [State.held, hc, Control.held,
      PollCaller.held])
    have hhoming : J.parent c = some t → (J.stage c).homing = false := fun hp =>
      hidle hp hown fun q d s hd => by simp [hc, Control.child, PollCaller.child] at hd
    exact hj.settled_of_zero hchildren hempty hpc fun hp => Stage.pending_of_homing (hhoming hp)
  case pollWake c p hc hempty =>
    have hw : (σ.control w).child = some (p, c, .counted) := by rw [hc]; rfl
    have hwake : (Event.provablyGood p : Event W).Joined σ.trace := by
      intro q hq d hqd
      obtain rfl : p = q := by simpa [Event.passes] using hq
      have hown := (hl.held.mem_held w (.closure p)).mp (Control.mem_held_of_child hw)
      have hzero : (σ.closure p).joinCounter = 0 := by
        rw [joinCounter_closure, ← hj.tracks.count]
        exact hj.busy.counted w p c hw
      refine hj.settled_of_zero hzero hempty hqd fun hp => ?_
      by_cases hdc : d = c
      · rw [hdc, (hj.busy.stage w p c _ hw).2]
        rfl
      · refine Stage.pending_of_homing (hidle hp hown fun q e s he => ?_)
        cases hw.symm.trans he
        exact Ne.symm hdc
    refine (TransitionSystem.Throughout.cons h hwake).extend
      (P := fun e => ∀ p, e.passes p = false) ?_ hother
    exact .cons (fun _ => rfl) (.cons (fun _ => rfl) (.refl _))
  -- what the other steps of the protocol tell lets no closure go on
  all_goals refine h.extend (P := fun e => ∀ p, e.passes p = false) ?_ hother
  case promote => exact .cons (fun _ => rfl) (.cons (fun _ => rfl) (.refl _))
  case finishPromote =>
    exact .cons (fun _ => rfl) (.cons (fun _ => rfl) (.cons (fun _ => rfl) (.cons (fun _ => rfl)
      (.cons (fun _ => rfl) (.refl _)))))
  case inletApply =>
    exact .cons (fun _ => rfl) (.cons (fun _ => rfl) (.cons (fun _ => rfl) (.cons (fun _ => rfl)
      (.refl _))))
  case inletDrop =>
    exact .cons (fun _ => rfl) (.cons (fun _ => rfl) (.cons (fun _ => rfl) (.refl _)))
  case inletAbort =>
    rw [trace_startAbort]
    unfold detachFromInlet
    split
    all_goals
      simp
      repeat' first
        | exact .refl _
        | refine .cons (fun _ => rfl) ?_
  case pollSuspend | pollWait | lockParent => exact .refl _
  case pollReturn | remove => exact .cons (fun _ => rfl) (.cons (fun _ => rfl) (.refl _))
  case returnRunning hσ' _ | returnPoll hσ' _ =>
    cases hσ'
    all_goals
      simp
      split
      all_goals
        repeat' first
          | exact .refl _
          | refine .cons (fun _ => rfl) ?_
  case leave hc _ => rcases hc with hc | hc <;> simp [Seen, hc] at hseen
  all_goals simp_all [Seen, PollCaller.asks, PollCaller.closure]

/-- **In every reachable state** no sync has passed early. -/
theorem joined_reachable {w₀ : W} (h : (scheduler cfg w₀).Reachable σ) :
    TransitionSystem.Throughout Event.Joined σ.trace := by
  refine h.invariant (P := fun σ => TransitionSystem.Throughout Event.Joined σ.trace) .nil ?_
  intro τ τ' a hr h hst
  obtain ⟨J, hj⟩ := Joins.reachable hr
  exact joined_transition h hj (LocksHeld.reachable hr) (transition_of_step hst)

end State

section Results

variable [DecidableEq W] {cfg : Config} {w₀ : W} {σ : State W}

/-- **Join counters and children lists agree.** While the lock of a closure is
free, its join counter is the length of its list of incomplete inlets, which
has each child once that was promoted and has not brought its inlet home, and
nothing else: the inlet is neither complete nor applied nor thrown away. -/
theorem joinCounter_counts_children (hr : (scheduler cfg w₀).Reachable σ) {p : ClosureId}
    (hfree : (σ.closure p).mutexOwner = none) :
    (σ.closure p).joinCounter = (σ.closure p).incompleteInlets.length ∧
    (∀ i ∈ (σ.closure p).incompleteInlets, ∃ c, i.this = some c) ∧
    (σ.closure p).children.Nodup ∧
    ∀ c, c ∈ (σ.closure p).children ↔ .promoted p c ∈ σ.trace ∧
      ((σ.closure p).completeInlets.filterMap InletClosure.this).count c +
        σ.trace.countP (Event.settles p c) = 0 := by
  obtain ⟨J, hj⟩ := State.Joins.reachable hr
  have hidle := fun c => hj.idle (State.LocksHeld.reachable hr) hfree (c := c)
  have hmap := hj.tracks.waiting p
  refine ⟨?_, ?_, ?_, ?_⟩
  · have hcount := hj.valid.count_eq fun c hc => (hidle c hc).2
    have hlen := congrArg List.length hmap
    rw [List.length_map, List.length_map] at hlen
    rw [hj.tracks.count, ← hlen] at hcount
    exact hcount
  · intro i hi
    have hthis : i.this ∈ (J.waiting p).map some := hmap ▸ List.mem_map_of_mem hi
    obtain ⟨c, -, hc⟩ := List.mem_map.mp hthis
    exact ⟨c, hc.symm⟩
  · rw [hj.children_eq]
    exact hj.valid.nodup p
  · intro c
    rw [hj.children_eq, hj.valid.mem_waiting, hj.mem_forks, hj.brought_home, and_assoc]
    refine and_congr_right fun hc => ?_
    obtain ⟨hforked, hhoming⟩ := hidle c hc
    cases hs : J.stage c <;> simp_all [Stage.listed, Stage.homing, Stage.brought]

/-- After the steal, the closure of `invoke_main` waits for one child. -/
theorem joinCounter_counts_children_stolen : ∃ σ : State (Fin 2),
    (σ.closure 0).joinCounter = 1 ∧
    (σ.closure 0).joinCounter = (σ.closure 0).incompleteInlets.length := by
  obtain ⟨σ, hr, hp⟩ := TransitionSystem.Reachable.of_eval (M := scheduler .small (0 : Fin 2))
    (stealRoot ++ [(1, .capture [0])])
    (fun σ => (σ.closure 0).mutexOwner == none && (σ.closure 0).joinCounter == 1)
    (by decide +kernel)
  simp only [Bool.and_eq_true, beq_iff_eq] at hp
  exact ⟨σ, hp.2, (joinCounter_counts_children hr hp.1).1⟩

/-- **No sync passes early.** Whenever in a run `Cilk_sync` returned 0 for a
closure, or a provably good steal woke it up, what every child promoted before
had brought home was applied to the closure or thrown away exactly once. -/
theorem syncs_wait_for_children (hr : (scheduler cfg w₀).Reachable σ) {p : ClosureId}
    {e : Event W} {t₁ t₂ : List (Event W)} (ht : σ.trace = t₁ ++ e :: t₂)
    (he : e = .synced p ∨ e = .provablyGood p) {c : ClosureId} (hc : .promoted p c ∈ t₂) :
    t₂.countP (Event.settles p c) = 1 := by
  refine State.joined_reachable hr t₁ e t₂ ht p ?_ c hc
  rcases he with rfl | rfl <;> simp [Event.passes]

/-- A parent that was suspended is woken by its last child. -/
theorem syncs_wait_for_children_woken : ∃ (σ : State (Fin 2)) (t₁ t₂ : List (Event (Fin 2))),
    σ.trace = t₁ ++ .provablyGood 0 :: t₂ ∧ .promoted 0 1 ∈ t₂ ∧
    t₂.countP (Event.settles 0 1) = 1 := by
  obtain ⟨σ, hr, hp⟩ := TransitionSystem.Reachable.of_eval (M := scheduler .small (0 : Fin 2))
    wakeRoot
    (fun σ => σ.trace.take 3 == [.free 0 (.closure 1) 128, .destroy 1, .provablyGood 0] &&
      (σ.trace.drop 3).contains (.promoted 0 1)) (by decide +kernel)
  simp only [Bool.and_eq_true, beq_iff_eq, List.contains_iff_mem] at hp
  have ht : σ.trace = [.free 0 (.closure 1) 128, .destroy 1] ++ .provablyGood 0 ::
      σ.trace.drop 3 := by
    conv_lhs => rw [← List.take_append_drop 3 σ.trace, hp.1]
    rfl
  exact ⟨σ, _, _, ht, hp.2, syncs_wait_for_children hr ht (.inr rfl) hp.2⟩

/-- **What a child brings home arrives once.** It is in the complete inlets of
its parent, or was applied or thrown away, at most once in all, and exactly
once when the child is destroyed; and nothing is destroyed twice. -/
theorem child_brings_home_once (hr : (scheduler cfg w₀).Reachable σ) (p c : ClosureId) :
    ((σ.closure p).completeInlets.filterMap InletClosure.this).count c +
      σ.trace.countP (Event.settles p c) ≤ 1 ∧
    (.promoted p c ∈ σ.trace → .destroy c ∈ σ.trace →
      ((σ.closure p).completeInlets.filterMap InletClosure.this).count c +
        σ.trace.countP (Event.settles p c) = 1) ∧
    σ.trace.countP (Event.ends c) ≤ 1 := by
  obtain ⟨J, hj⟩ := State.Joins.reachable hr
  refine ⟨?_, ?_, ?_⟩
  · rw [hj.brought_home]
    split <;> decide
  · intro hp he
    rw [hj.brought_home, if_pos]
    rw [hj.mem_ends.mp he]
    exact ⟨(hj.mem_forks.mp hp).1, rfl⟩
  · rw [hj.books.ended c]
    split <;> decide

/-- The child that woke its parent is destroyed. -/
theorem child_brings_home_once_woken : ∃ σ : State (Fin 2), .destroy 1 ∈ σ.trace ∧
    ((σ.closure 0).completeInlets.filterMap InletClosure.this).count 1 +
      σ.trace.countP (Event.settles 0 1) = 1 := by
  obtain ⟨σ, hr, hp⟩ := TransitionSystem.Reachable.of_eval (M := scheduler .small (0 : Fin 2))
    wakeRoot (fun σ => σ.trace.contains (.destroy 1) && σ.trace.contains (.promoted 0 1))
    (by decide +kernel)
  simp only [Bool.and_eq_true, List.contains_iff_mem] at hp
  exact ⟨σ, hp.1, (child_brings_home_once hr 0 1).2.1 hp.2 hp.1⟩

end Results

end Cilk
