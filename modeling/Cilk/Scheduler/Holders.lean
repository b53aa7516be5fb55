import Cilk.Scheduler.Refinement

/-!
# The holder of a closure

Every live closure has exactly one holder: a deque, where it is once, or a
worker whose local `t` it is. Which of the two, and what the holder may do
with it, is the status of the closure.

A thief drops the lock of the victim's deque between `promote_child` and
`finish_promote`. In this window the parent is off the deque, and still
running on the cache that its child runs on by now. Its lock is held, so
nobody sees it, but it does share a cache with another running closure.
-/

namespace Cilk

variable {W : Type} [DecidableEq W]

namespace State

/-- The local `t` of `Cilk_scheduler`, or of the function called with it. -/
def localT (σ : State W) (w : W) : Option ClosureId := ((σ.control w).role : Role W).token

/-- The closure is in the deque of `v`, once, and in no other deque. -/
def InOneDeque (σ : State W) (c : ClosureId) (v : W) : Prop :=
  (σ.deque v).closures.count c = 1 ∧ ∀ u, u ≠ v → c ∉ (σ.deque u).closures

def InNoDeque (σ : State W) (c : ClosureId) : Prop := ∀ u, c ∉ (σ.deque u).closures

/-- The closure is the local `t` of `v`, and of nobody else. -/
def LocalOfOne (σ : State W) (c : ClosureId) (v : W) : Prop :=
  σ.localT v = some c ∧ ∀ u, u ≠ v → σ.localT u ≠ some c

def LocalOfNone (σ : State W) (c : ClosureId) : Prop := ∀ u, σ.localT u ≠ some c

/-- Where a live closure is, by its status. -/
structure Held (σ : State W) (c : ClosureId) : Prop where
  ready : (σ.closure c).status = .ready →
    (∃ v, σ.InOneDeque c v) ∧ σ.LocalOfNone c ∨ (∃ v, σ.LocalOfOne c v) ∧ σ.InNoDeque c
  running : (σ.closure c).status = .running →
    (∃ v, σ.InOneDeque c v ∧ σ.dequePeekBottom v = some c ∧ (σ.closure c).cache = some v) ∧
      σ.LocalOfNone c ∨
    (∃ v, σ.LocalOfOne c v ∧ σ.control v = .insert c ∧ (σ.closure c).cache = some v) ∧
      σ.InNoDeque c
  returning : (σ.closure c).status = .returning →
    (∃ v, σ.InOneDeque c v ∧ σ.dequePeekBottom v = some c) ∧ σ.LocalOfNone c ∨
    (∃ v, σ.LocalOfOne c v) ∧ σ.InNoDeque c
  suspended : (σ.closure c).status = .suspended → σ.InNoDeque c ∧ σ.LocalOfNone c

namespace Sound

variable {σ : State W} (h : σ.Sound) {c : ClosureId} {v w : W}

include h

omit [DecidableEq W] in
theorem inOneDeque (hc : c ∈ (σ.deque v).closures) :
    σ.InOneDeque c v ∧ σ.LocalOfNone c := by
  have hcustody := h.placed.custody
  refine ⟨⟨List.count_eq_one_of_mem (hcustody.nodup v) hc, fun u hu hm => ?_⟩, fun u hu => ?_⟩
  · exact hu (hcustody.queue_unique (C := σ.place.custody) hm hc)
  · exact hcustody.not_hand_of_mem (C := σ.place.custody) hc hu

omit [DecidableEq W] in
theorem localOfOne (hc : σ.localT v = some c) : σ.LocalOfOne c v ∧ σ.InNoDeque c := by
  have hcustody := h.placed.custody
  refine ⟨⟨hc, fun u hu hm => ?_⟩, fun u hm => ?_⟩
  · exact hu (hcustody.hand_unique c u v hm hc)
  · exact hcustody.not_hand_of_mem (C := σ.place.custody) hm hc

omit [DecidableEq W] in
/-- Every live closure that is not suspended has exactly one holder, whoever
has its lock. -/
theorem existsUnique_holder (hlive : (σ.closure c).magic = true)
    (hs : (σ.closure c).status ≠ .suspended) :
    ∃! w, c ∈ (σ.deque w).closures ∨ σ.localT w = some c :=
  h.placed.custody.existsUnique_holds hlive hs

omit [DecidableEq W] in
/-- A live closure is suspended, in a deque, or the local `t` of a worker. -/
theorem cases_holder (hlive : (σ.closure c).magic = true)
    (hs : (σ.closure c).status ≠ .suspended) :
    (∃ v, c ∈ (σ.deque v).closures) ∨ ∃ v, σ.localT v = some c := by
  obtain ⟨v, hv, -⟩ := h.existsUnique_holder hlive hs
  exact hv.imp (⟨v, ·⟩) (⟨v, ·⟩)

omit [DecidableEq W] in
theorem ready_of_mem_dropLast (hc : c ∈ (σ.deque v).closures.dropLast) :
    (σ.closure c).status = .ready := by
  rcases hb : (σ.deque v).closures.getLast? with _ | t
  · rw [List.getLast?_eq_none_iff.mp hb] at hc
    cases hc
  · exact h.placed.dropLast_ready hb hc

omit [DecidableEq W] in
/-- A running local `t` whose lock is free has been set up and not inserted
yet. -/
theorem insert_of_running (hc : σ.localT v = some c) (hs : (σ.closure c).status = .running)
    (hfree : (σ.closure c).mutexOwner = none) :
    σ.control v = .insert c ∧ (σ.closure c).cache = some v := by
  have hnot := h.locks.held.not_mem_of_free (l := .closure c) hfree (w := v)
  rcases h.placed.token_running hc hs with ⟨hr, hcache, -⟩ | ⟨d, hr⟩
  · refine ⟨?_, hcache⟩
    rcases Control.of_role_starting hr with ⟨k, hk, rfl⟩ | hi
    · exact absurd (Control.mem_held_of_polling hk) hnot
    · exact hi
  · rw [State.held, Control.of_role_detached hr] at hnot
    exact absurd (List.mem_singleton_self _) hnot

omit [DecidableEq W] in
theorem held (hlive : (σ.closure c).magic = true) (hfree : (σ.closure c).mutexOwner = none) :
    σ.Held c where
  ready hs := by
    rcases h.cases_holder hlive (by rw [hs]; nofun) with ⟨v, hv⟩ | ⟨v, hv⟩
    · exact .inl ⟨⟨v, (h.inOneDeque hv).1⟩, (h.inOneDeque hv).2⟩
    · exact .inr ⟨⟨v, (h.localOfOne hv).1⟩, (h.localOfOne hv).2⟩
  running hs := by
    rcases h.cases_holder hlive (by rw [hs]; nofun) with ⟨v, hv⟩ | ⟨v, hv⟩
    · have hr := h.placed.runs_of_mem hv hs
      exact .inl ⟨⟨v, (h.inOneDeque hv).1, hr.1, hr.2.2⟩, (h.inOneDeque hv).2⟩
    · have hi := h.insert_of_running hv hs hfree
      exact .inr ⟨⟨v, (h.localOfOne hv).1, hi⟩, (h.localOfOne hv).2⟩
  returning hs := by
    rcases h.cases_holder hlive (by rw [hs]; nofun) with ⟨v, hv⟩ | ⟨v, hv⟩
    · refine .inl ⟨⟨v, (h.inOneDeque hv).1, ?_⟩, (h.inOneDeque hv).2⟩
      by_contra hb
      have hready : (σ.closure c).status = .ready := h.placed.above v c hv hb
      rw [hs] at hready
      cases hready
    · exact .inr ⟨⟨v, (h.localOfOne hv).1⟩, (h.localOfOne hv).2⟩
  suspended hs := by
    have hcustody := h.placed.custody
    constructor
    · intro u hu
      exact (hcustody.holds_live (w := u) (i := c) (.inl hu)).2 hs
    · intro u hu
      exact (hcustody.holds_live (w := u) (i := c) (.inr hu)).2 hs

omit [DecidableEq W] in
/-- Two running closures only share a cache while one of them is detached
from the other. -/
theorem running_cache_unique {d : ClosureId} (hlive : (σ.closure c).magic = true)
    (hlive' : (σ.closure d).magic = true) (hs : (σ.closure c).status = .running)
    (hs' : (σ.closure d).status = .running) (hcache : (σ.closure c).cache = some v)
    (hcache' : (σ.closure d).cache = some v) (hne : c ≠ d) :
    ∃ w e, σ.control w = .finishPromote c e ∨ σ.control w = .finishPromote d e := by
  -- unless it is being detached, the closure runs in the deque or the hand of `v`
  have hplace : ∀ {b}, (σ.closure b).magic = true → (σ.closure b).status = .running →
      (σ.closure b).cache = some v → (∃ w e, σ.control w = .finishPromote b e) ∨
        σ.place.bottom v = some b ∨ (σ.control v).role = .starting b ∧ σ.place.Quiet v := by
    intro b hb hs hv
    rcases h.cases_holder hb (by rw [hs]; nofun) with ⟨u, hu⟩ | ⟨u, hu⟩
    · have hr := h.placed.runs_of_mem hu hs
      obtain rfl : u = v := Option.some.inj (hr.2.2.symm.trans hv)
      exact .inr (.inl hr.1)
    · rcases h.placed.token_running hu hs with ⟨hr, hc, hq⟩ | ⟨e, hr⟩
      · obtain rfl : u = v := Option.some.inj (hc.symm.trans hv)
        exact .inr (.inr ⟨hr, hq⟩)
      · exact .inl ⟨u, e, Control.of_role_detached hr⟩
  have hquiet : ∀ {b}, (σ.closure b).status = .running → σ.place.bottom v = some b →
      ¬ σ.place.Quiet v := by
    intro b hs hb hq
    have hready : (σ.closure b).status = .ready := hq b hb
    rw [hs] at hready
    cases hready
  rcases hplace hlive hs hcache with ⟨w, e, hw⟩ | hb | ⟨hr, hq⟩
  · exact ⟨w, e, .inl hw⟩
  all_goals
    rcases hplace hlive' hs' hcache' with ⟨w, e, hw⟩ | hb' | ⟨hr', hq'⟩
    · exact ⟨w, e, .inr hw⟩
  · exact absurd (Option.some.inj (hb.symm.trans hb')) hne
  · exact absurd hq' (hquiet hs hb)
  · exact absurd hq (hquiet hs' hb')
  · exact absurd (Role.starting.inj (hr.symm.trans hr')) hne

end Sound

end State

/-- **Every live closure has exactly one holder**, in every reachable state:
if its lock is free, the one its status says. Above the bottom of a deque
every closure is ready, and two running closures share a worker's cache only
while a thief is still detaching one of them, under its lock. -/
theorem closure_has_one_holder {cfg : Config} {w₀ : W} {σ : State W}
    (hr : (scheduler cfg w₀).Reachable σ) :
    (∀ c, (σ.closure c).magic = true → (σ.closure c).mutexOwner = none → σ.Held c) ∧
    (∀ c, (σ.closure c).magic = true → (σ.closure c).status ≠ .suspended →
      ∃! w, c ∈ (σ.deque w).closures ∨ σ.localT w = some c) ∧
    (∀ v, ∀ c ∈ (σ.deque v).closures.dropLast, (σ.closure c).status = .ready) ∧
    (∀ c d v, (σ.closure c).magic = true → (σ.closure d).magic = true →
      (σ.closure c).status = .running → (σ.closure d).status = .running →
      (σ.closure c).cache = some v → (σ.closure d).cache = some v → c ≠ d →
      ∃ w e, (σ.control w = .finishPromote c e ∧ (σ.closure c).mutexOwner = some w) ∨
        (σ.control w = .finishPromote d e ∧ (σ.closure d).mutexOwner = some w)) := by
  have h := State.Sound.reachable hr
  refine ⟨fun c => h.held, fun c => h.existsUnique_holder, fun v c => h.ready_of_mem_dropLast, ?_⟩
  intro c d v hlive hlive' hs hs' hcache hcache' hne
  have hown : ∀ {w b e}, σ.control w = .finishPromote b e → (σ.closure b).mutexOwner = some w := by
    intro w b e hw
    refine (h.locks.held.mem_held w (.closure b)).mp ?_
    rw [State.held, hw]
    exact List.mem_singleton_self _
  obtain ⟨w, e, hw | hw⟩ := h.running_cache_unique hlive hlive' hs hs' hcache hcache' hne
  · exact ⟨w, e, .inl ⟨hw, hown hw⟩⟩
  · exact ⟨w, e, .inr ⟨hw, hown hw⟩⟩

/-- Worker 0 spawns from `invoke_main`, and worker 1 steals `invoke_main`, up
to `finish_promote`. -/
def stealRoot : List (Fin 2 × Action (Fin 2)) :=
  [(0, .go), (0, .go), (0, .go), (0, .spawn ⟨40, false⟩ false ⟨true, 1⟩), (0, .go),
    (1, .go), (1, .victim 0), (1, .go), (1, .go), (1, .go), (1, .go)]

theorem closure_has_one_holder_stolen : ∃ σ : State (Fin 2),
    (σ.closure 1).status = .running ∧ (σ.closure 1).mutexOwner = none ∧ σ.Held 1 := by
  obtain ⟨σ, hr, hp⟩ := TransitionSystem.Reachable.of_eval (M := scheduler .small (0 : Fin 2))
    stealRoot
    (fun σ => (σ.closure 1).magic && (σ.closure 1).status == .running &&
      (σ.closure 1).mutexOwner == none) (by decide +kernel)
  simp only [Bool.and_eq_true, beq_iff_eq] at hp
  obtain ⟨⟨hlive, hs⟩, hfree⟩ := hp
  exact ⟨σ, hs, hfree, (closure_has_one_holder hr).1 1 hlive hfree⟩

/-- In the window, two running closures do share a cache. -/
theorem detached_parent_shares_cache :
    ¬ ∀ σ, (scheduler .small (0 : Fin 2)).Reachable σ → ∀ c d v,
      (σ.closure c).magic = true → (σ.closure d).magic = true →
      (σ.closure c).status = .running → (σ.closure d).status = .running →
      (σ.closure c).cache = some v → (σ.closure d).cache = some v → c = d := by
  intro hall
  obtain ⟨σ, hr, hp⟩ := TransitionSystem.Reachable.of_eval (M := scheduler .small (0 : Fin 2))
    stealRoot
    (fun σ => [0, 1].all fun c => (σ.closure c).magic && (σ.closure c).status == .running &&
      (σ.closure c).cache == some 0) (by decide +kernel)
  simp only [List.all_cons, List.all_nil, Bool.and_true, Bool.and_eq_true, beq_iff_eq] at hp
  obtain ⟨⟨⟨hlive, hs⟩, hcache⟩, ⟨hlive', hs'⟩, hcache'⟩ := hp
  exact absurd (hall σ hr 0 1 0 hlive hlive' hs hs' hcache hcache') (by decide)

/-! ## Runs that go on from the steal -/

/-- Once worker 1 has stolen `invoke_main`, worker 0 calls `Cilk_exit`, up to
the mark of the child. -/
def exitAfterSteal : List (Fin 2 × Action (Fin 2)) :=
  stealRoot ++ [(1, .capture [0]), (0, .exit [7]), (0, .capture [0]), (0, .inlet true [0]),
    (0, .go)]

/-- Worker 1 has stolen `invoke_main`, which suspends at its sync; worker 0
returns from the child and wakes `invoke_main` up. -/
def wakeRoot : List (Fin 2 × Action (Fin 2)) :=
  stealRoot ++ [(1, .capture [0]), (1, .go), (1, .go), (1, .go), (1, .sync), (1, .go), (1, .go),
    (1, .go), (0, .returnFast [5]), (0, .go), (0, .go), (0, .go), (0, .go), (0, .dummy []),
    (0, .go), (0, .go), (0, .go), (0, .go), (0, .inlet true [0]), (0, .go), (0, .go), (0, .go)]

/-- Worker 1 executes the stolen `invoke_main`, and worker 0 has brought the
child home. -/
def returnToRunning : List (Fin 2 × Action (Fin 2)) :=
  stealRoot ++ [(1, .capture [0]), (1, .go), (1, .go), (1, .go), (0, .returnFast [5]), (0, .go),
    (0, .go), (0, .go), (0, .go), (0, .dummy []), (0, .go), (0, .go), (0, .go), (0, .go)]

/-- Worker 0 trapped and waits for its own deque, which worker 1 has locked. -/
def trapBehindThief : List (Fin 2 × Action (Fin 2)) :=
  stealRoot.take 8 ++ [(0, .returnFast [5]), (0, .go)]

end Cilk
