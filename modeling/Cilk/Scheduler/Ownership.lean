import Cilk.Scheduler.Frames

/-!
# Every frame has one place

A frame is either the frame of a closure, or in a slot above the head of the
stack of a worker, and there once. `promote_child` and `detach` move the frame
above the head from the one place to the other, in the step that moves the
head. So no two workers ever execute the same activation, however thieves and
victims interleave: a thief that has taken a frame has it alone.
-/

namespace Cilk

variable {W : Type}

namespace State

/-- The slot is above the head of the stack, and in use or stored. -/
def Loose (σ : State W) (w : W) (i : ℕ) : Prop :=
  fieldOf σ.cache ClosureCache.head w < i ∧ (i < fieldOf σ.cache ClosureCache.tail w ∨
    i = fieldOf σ.cache ClosureCache.tail w ∧ (σ.control w).stored)

/-- **No frame is in two places.** -/
structure Apart (σ : State W) : Prop where
  slot_lt : ∀ w i, σ.Loose w i → fieldOf σ.cache ClosureCache.stack w i < σ.nextFrame
  frame_lt : ∀ c f, fieldOf σ.closure Closure.frame c = .some f → f < σ.nextFrame
  slots : ∀ u v i j, σ.Loose u i → σ.Loose v j →
    fieldOf σ.cache ClosureCache.stack u i = fieldOf σ.cache ClosureCache.stack v j →
    u = v ∧ i = j
  frames : ∀ c d f, fieldOf σ.closure Closure.frame c = .some f →
    fieldOf σ.closure Closure.frame d = .some f → c = d
  apart : ∀ u i c, σ.Loose u i →
    fieldOf σ.closure Closure.frame c ≠ .some (fieldOf σ.cache ClosureCache.stack u i)

variable [DecidableEq W] {cfg : Config} {w w₀ : W} {σ σ' : State W}

namespace Apart

omit [DecidableEq W] in
/-- A step after which no frame is in a new place. -/
theorem of_loose (h : σ.Apart) (hnext : σ.nextFrame ≤ σ'.nextFrame)
    (hloose : ∀ u i, σ'.Loose u i → σ.Loose u i ∧
      fieldOf σ'.cache ClosureCache.stack u i = fieldOf σ.cache ClosureCache.stack u i)
    (hframe : ∀ c f, fieldOf σ'.closure Closure.frame c = .some f →
      fieldOf σ.closure Closure.frame c = .some f) : σ'.Apart where
  slot_lt u i hi := by
    obtain ⟨hi, hs⟩ := hloose u i hi
    rw [hs]
    exact (h.slot_lt u i hi).trans_le hnext
  frame_lt c f hf := (h.frame_lt c f (hframe c f hf)).trans_le hnext
  slots u v i j hi hj he := by
    obtain ⟨hi, hsi⟩ := hloose u i hi
    obtain ⟨hj, hsj⟩ := hloose v j hj
    rw [hsi, hsj] at he
    exact h.slots u v i j hi hj he
  frames c d f hc hd := h.frames c d f (hframe c f hc) (hframe d f hd)
  apart u i c hi hc := by
    obtain ⟨hi, hs⟩ := hloose u i hi
    rw [hs] at hc
    exact h.apart u i c hi (hframe c _ hc)

/-- A step that leaves alone the stacks and the frames of the closures. -/
theorem keep {q : Control W} (h : σ.Apart) (hnext : σ.nextFrame ≤ σ'.nextFrame)
    (hstack : fieldOf σ'.cache ClosureCache.stack = fieldOf σ.cache ClosureCache.stack)
    (hhead : fieldOf σ'.cache ClosureCache.head = fieldOf σ.cache ClosureCache.head)
    (htail : fieldOf σ'.cache ClosureCache.tail = fieldOf σ.cache ClosureCache.tail)
    (hcontrol : σ'.control = Function.update σ.control w q)
    (hstored : q.stored → (σ.control w).stored)
    (hframe : ∀ c f, fieldOf σ'.closure Closure.frame c = .some f →
      fieldOf σ.closure Closure.frame c = .some f) : σ'.Apart := by
  refine h.of_loose hnext (fun u i hi => ⟨?_, by rw [hstack]⟩) hframe
  unfold Loose at hi ⊢
  rw [hhead, htail, hcontrol, Function.update_apply] at hi
  refine ⟨hi.1, hi.2.imp_right (And.imp_right fun hq => ?_)⟩
  split at hq
  case isTrue he => exact he ▸ hstored hq
  case isFalse => exact hq

omit [DecidableEq W] in
/-- A step that makes a closure of the frame above the head of `v`. -/
theorem create {v : W} (h : σ.Apart)
    (hslot : σ.Loose v (fieldOf σ.cache ClosureCache.head v + 1))
    (hnext : σ'.nextFrame = σ.nextFrame)
    (hframe : fieldOf σ'.closure Closure.frame = Function.update (fieldOf σ.closure Closure.frame)
      σ.nextClosure (.some (fieldOf σ.cache ClosureCache.stack v
        (fieldOf σ.cache ClosureCache.head v + 1))))
    (hstack : fieldOf σ'.cache ClosureCache.stack = fieldOf σ.cache ClosureCache.stack)
    (hloose : ∀ u i, σ'.Loose u i → σ.Loose u i ∧
      (u = v → i ≠ fieldOf σ.cache ClosureCache.head v + 1)) : σ'.Apart where
  slot_lt u i hi := by
    rw [hstack, hnext]
    exact h.slot_lt u i (hloose u i hi).1
  frame_lt c f hf := by
    rw [hframe, Function.update_apply] at hf
    rw [hnext]
    split at hf
    · cases hf
      exact h.slot_lt v _ hslot
    · exact h.frame_lt c f hf
  slots u v i j hi hj he := by
    rw [hstack] at he
    exact h.slots u v i j (hloose u i hi).1 (hloose v j hj).1 he
  frames c d f hc hd := by
    rw [hframe, Function.update_apply] at hc hd
    split at hc <;> split at hd
    case isTrue.isTrue hc' hd' => rw [hc', hd']
    case isTrue.isFalse => exact absurd (hd.trans hc.symm) (h.apart v _ d hslot)
    case isFalse.isTrue => exact absurd (hc.trans hd.symm) (h.apart v _ c hslot)
    case isFalse.isFalse => exact h.frames c d f hc hd
  apart u i c hi hc := by
    obtain ⟨hi, hne⟩ := hloose u i hi
    rw [hframe, hstack, Function.update_apply] at hc
    split at hc
    · obtain ⟨rfl, rfl⟩ := h.slots v u _ i hslot hi (Option.some.inj hc)
      exact hne rfl rfl
    · exact h.apart u i c hi hc

omit [DecidableEq W] in
/-- A step that stores a new frame over the stack of `w`. -/
theorem store (h : σ.Apart) (hnext : σ'.nextFrame = σ.nextFrame + 1)
    (hloose : ∀ u i, σ'.Loose u i →
      (u = w ∧ i = fieldOf σ.cache ClosureCache.tail w ∧
        fieldOf σ'.cache ClosureCache.stack u i = σ.nextFrame) ∨
      σ.Loose u i ∧
        fieldOf σ'.cache ClosureCache.stack u i = fieldOf σ.cache ClosureCache.stack u i)
    (hframe : fieldOf σ'.closure Closure.frame = fieldOf σ.closure Closure.frame) :
    σ'.Apart where
  slot_lt u i hi := by
    rw [hnext]
    rcases hloose u i hi with ⟨-, -, hs⟩ | ⟨hi, hs⟩
    · rw [hs]
      exact Nat.lt_succ_self _
    · rw [hs]
      exact (h.slot_lt u i hi).trans (Nat.lt_succ_self _)
  frame_lt c f hf := by
    rw [hnext]
    exact (h.frame_lt c f (hframe ▸ hf)).trans (Nat.lt_succ_self _)
  slots u v i j hi hj he := by
    rcases hloose u i hi with ⟨hu, hi, hsi⟩ | ⟨hi, hsi⟩ <;>
      rcases hloose v j hj with ⟨hv, hj, hsj⟩ | ⟨hj, hsj⟩ <;> rw [hsi, hsj] at he
    · exact ⟨hu.trans hv.symm, hi.trans hj.symm⟩
    · exact absurd he.symm (h.slot_lt v j hj).ne
    · exact absurd he (h.slot_lt u i hi).ne
    · exact h.slots u v i j hi hj he
  frames := hframe ▸ h.frames
  apart u i c hi hc := by
    rw [hframe] at hc
    rcases hloose u i hi with ⟨-, -, hs⟩ | ⟨hi, hs⟩ <;> rw [hs] at hc
    · exact absurd rfl (h.frame_lt c _ hc).ne
    · exact h.apart u i c hi hc

/-- **Every step keeps it.** -/
theorem transition (h : σ.Apart) (hsound : σ.Sound) (ht : Transition cfg w σ σ') : σ'.Apart := by
  obtain ⟨hn, -, -, hv⟩ := id hsound
  have hrole : σ.place.role w = (σ.control w).role := rfl
  have hown := hv.own w
  cases ht
  case setup t hc _ _ _ =>
    refine h.of_loose (by simp) (fun u i hi => ?_) (by simp)
    by_cases hu : u = w
    · subst hu
      simp [Loose, Control.stored, Control.role, PollCaller.role] at hi
      exact absurd hi.2 hi.1.ne'
    · simpa [Loose, hu] using hi
  case spawn hc _ =>
    refine h.store (w := w) (by simp) (fun u i hi => ?_) (by simp)
    by_cases hu : u = w
    · subst hu
      simp [Loose] at hi ⊢
      rcases hi.2 with hlt | ⟨he, -⟩
      · exact .inr ⟨⟨hi.1, .inl hlt⟩, Function.update_of_ne hlt.ne _ _⟩
      · exact .inl ⟨he, by rw [he, Function.update_self]⟩
    · exact .inr (by simpa [Loose, hu] using hi)
  case push hc =>
    refine h.of_loose (by simp) (fun u i hi => ⟨?_, by simp⟩) (by simp)
    by_cases hu : u = w
    · subst hu
      simp [Loose, Control.stored, Control.role] at hi
      refine ⟨hi.1, (Nat.le_iff_lt_or_eq.mp hi.2).imp_right fun he => ⟨he, .inr hc⟩⟩
    · simpa [Loose, hu] using hi
  case returnFast r hc hdepth | unwind r hc hdepth =>
    have hdepth : 2 ≤ fieldOf σ.cache ClosureCache.tail w := hdepth
    refine h.of_loose (by simp) (fun u i hi => ⟨?_, by simp⟩) (by simp)
    by_cases hu : u = w
    · subst hu
      simp [Loose] at hi
      exact ⟨hi.1, .inl (by omega)⟩
    · simpa [Loose, hu] using hi
  case unwindLast hc _ | slowReturn hc =>
    refine h.of_loose (by simp) (fun u i hi => ⟨?_, by simp⟩) (by simp)
    by_cases hu : u = w
    · subst hu
      simp [Loose, Control.stored, Control.role] at hi
      exact ⟨hi.1, .inl (by omega)⟩
    · simpa [Loose, hu] using hi
  case promote v cl hc =>
    rw [hc] at hrole
    have hpr := hv.promoting w v cl hrole
    have hvw := (hv.raised w v cl (by rw [hrole]; rfl)).1.symm
    refine h.create (v := v) ⟨Nat.lt_succ_self _, ?_⟩ (by simp) (by simp) (by simp) fun u i hi => ?_
    · exact hpr.1.lt_or_eq.imp_right fun he => ⟨he, .inl (hpr.2 he.symm)⟩
    · by_cases huv : u = v
      · subst huv
        simp [Loose, hvw] at hi
        exact ⟨⟨by omega, hi.2⟩, fun _ => by omega⟩
      · by_cases hu : u = w
        · subst hu
          simp [Loose, huv, Control.stored, Control.role] at hi
          exact ⟨⟨hi.1, .inl hi.2⟩, fun he => absurd he huv⟩
        · exact ⟨by simpa [Loose, hu, huv] using hi, fun he => absurd he huv⟩
  case inletAbort k i rest args hc hnext _ _ _ =>
    by_cases hdetach : fieldOf σ.closure Closure.status k.closure = .running ∧
        σ.atTopOfStack k.closure = false
    · have htail := tail_of_detach hsound hc hnext hdetach.1 hdetach.2
      unfold detachFromInlet
      rw [if_pos (by simpa [isRunning, atTopOfStack] using hdetach)]
      refine h.create (v := w) ⟨Nat.lt_succ_self _, .inl htail⟩ (by simp) (by simp) (by simp)
        fun u j hj => ?_
      by_cases hu : u = w
      · subst hu
        cases k <;> simp [Loose, Control.stored, Control.role, PollCaller.role] at hj
        all_goals exact ⟨⟨by omega, .inl hj.2⟩, fun _ => by omega⟩
      · exact ⟨by simpa [Loose, hu] using hj, fun he => absurd he hu⟩
    · unfold detachFromInlet
      rw [if_neg (by simpa [isRunning, atTopOfStack] using hdetach)]
      refine h.keep (w := w) (by simp) (by simp) (by simp) (by simp) (by simp; rfl) ?_ (by simp)
      simp [Control.stored, Control.role, hc]
  case stealNone => exact h
  case pollHandler hσ' | handlerRelock hσ' =>
    cases hσ'
    all_goals
      refine h.keep (w := w) (by simp) (by simp [-modifyCacheOf_cache])
        (by simp [-modifyCacheOf_cache]) (by simp [-modifyCacheOf_cache]) (by simp; rfl) ?_ ?_
      · simp [Control.stored, Control.role]
      · simp
  case returnRunning hσ' _ | returnPoll hσ' _ =>
    cases hσ'
    all_goals
      refine h.keep (w := w) (by simp) (by simp [-modifyCacheOf_cache])
        (by simp [-modifyCacheOf_cache]) (by simp [-modifyCacheOf_cache]) (by simp; rfl) ?_ ?_
      · simp [Control.stored, Control.role, PollCaller.role]
      · simp
  case walkDone k i hc =>
    cases i
    all_goals
      refine h.keep (w := w) le_rfl rfl rfl rfl rfl ?_ fun _ _ => id
      simp [Control.stored, Control.role, hc]
  case slowSetResult =>
    refine h.keep (w := w) (by simp) (by simp) (by simp) (by simp) (by simp; rfl) ?_ ?_
    · simp [Control.stored, Control.role]
    · simp
      grind
  case leave =>
    refine h.keep (w := w) le_rfl rfl rfl rfl rfl ?_ fun _ _ => id
    simp [Control.stored, Control.role]
  all_goals
    refine h.keep (w := w) (by simp) (by simp [-modifyCacheOf_cache])
      (by simp [-modifyCacheOf_cache]) (by simp [-modifyCacheOf_cache]) (by simp; rfl) ?_ ?_
    · simp [Control.stored, Control.role, PollCaller.role, *]
    · simp

/-- In the beginning there is one frame. -/
theorem init (w₀ : W) : (State.init cfg w₀).Apart where
  slot_lt w i hi := by
    obtain ⟨hlt, hi | ⟨hi, -⟩⟩ := hi
    · cases hi
    · exact absurd hi hlt.ne'
  frame_lt c f hf := by
    simp only [State.init, fieldOf] at hf ⊢
    split at hf <;> cases hf
    exact Nat.one_pos
  slots u v i j hi hj _ := by
    obtain ⟨hlt, hi | ⟨hi, -⟩⟩ := hi
    · cases hi
    · exact absurd hi hlt.ne'
  frames c d f hc hd := by
    simp only [State.init, fieldOf] at hc hd
    split at hc <;> cases hc
    split at hd <;> cases hd
    case isTrue.refl.isTrue.refl hc hd => exact hc.trans hd.symm
  apart u i c hi := by
    obtain ⟨hlt, hi | ⟨hi, -⟩⟩ := hi
    · cases hi
    · exact absurd hi hlt.ne'

/-- It holds in every reachable state. -/
theorem reachable (h : (scheduler cfg w₀).Reachable σ) : σ.Apart :=
  h.invariant (init w₀) fun _ _ _ hr h hst => h.transition (Sound.reachable hr) (transition_of_step hst)

omit [DecidableEq W] in
/-- A slot that is in use has the frame of the closure at the bottom, or is
above the head. -/
theorem slot_cases (hf : σ.Framed) {b : ClosureId} {i : ℕ} (hb : σ.place.Runs w b)
    (hi : fieldOf σ.cache ClosureCache.head w ≤ i)
    (hlt : i < fieldOf σ.cache ClosureCache.tail w) :
    i = fieldOf σ.cache ClosureCache.head w ∧
      fieldOf σ.closure Closure.frame b = .some (fieldOf σ.cache ClosureCache.stack w i) ∨
    σ.Loose w i := by
  rcases hi.eq_or_lt with rfl | hi
  · exact .inl ⟨rfl, hf.runs w b hb⟩
  · exact .inr ⟨hi, .inl hlt⟩

omit [DecidableEq W] in
/-- A frame is in use in one slot. -/
theorem eq_of_slot (h : σ.Apart) (hf : σ.Framed) {u v : W} {b d : ClosureId} {i j : ℕ}
    (hb : σ.place.Runs u b) (hd : σ.place.Runs v d)
    (hi : fieldOf σ.cache ClosureCache.head u ≤ i) (hit : i < fieldOf σ.cache ClosureCache.tail u)
    (hj : fieldOf σ.cache ClosureCache.head v ≤ j) (hjt : j < fieldOf σ.cache ClosureCache.tail v)
    (he : fieldOf σ.cache ClosureCache.stack u i = fieldOf σ.cache ClosureCache.stack v j) :
    u = v ∧ i = j := by
  rcases slot_cases hf hb hi hit with ⟨hi, hfb⟩ | hi <;>
    rcases slot_cases hf hd hj hjt with ⟨hj, hfd⟩ | hj
  · -- the two closures have one frame
    rw [he] at hfb
    cases h.frames b d _ hfb hfd
    cases Option.some.inj (hb.2.2.symm.trans hd.2.2)
    exact ⟨rfl, hi.trans hj.symm⟩
  · exact absurd (hfb.trans (congrArg some he)) (h.apart v j b hj)
  · exact absurd (hfd.trans (congrArg some he.symm)) (h.apart u i d hi)
  · exact h.slots u v i j hi hj he

omit [DecidableEq W] in
/-- A closure whose frame is in use is executed there. -/
theorem eq_of_frame (h : σ.Apart) (hf : σ.Framed) {u : W} {b c : ClosureId} {i : ℕ}
    (hb : σ.place.Runs u b) (hi : fieldOf σ.cache ClosureCache.head u ≤ i)
    (hit : i < fieldOf σ.cache ClosureCache.tail u)
    (hc : fieldOf σ.closure Closure.frame c = .some (fieldOf σ.cache ClosureCache.stack u i)) :
    c = b ∧ i = fieldOf σ.cache ClosureCache.head u := by
  rcases slot_cases hf hb hi hit with ⟨hi, hfb⟩ | hi
  · exact ⟨h.frames c b _ hc hfb, hi⟩
  · exact absurd hc (h.apart u i c hi)

end Apart

end State

section Results

variable [DecidableEq W] {cfg : Config} {w₀ : W} {σ : State W}

/-- **Nobody else has the frames a worker executes.** Where two workers execute
closures, no frame is in use on both stacks, or twice on one of them; and no
closure has a frame that is in use on a stack but the closure executed there,
whose frame is the lowest. -/
theorem frame_has_one_place (hr : (scheduler cfg w₀).Reachable σ) {u : W} {b : ClosureId} {i : ℕ}
    (hb : σ.place.Runs u b) (hi : (σ.cache u).head ≤ i) (hlt : i < (σ.cache u).tail) :
    (∀ v d j, σ.place.Runs v d → (σ.cache v).head ≤ j → j < (σ.cache v).tail →
      (σ.cache u).stack i = (σ.cache v).stack j → u = v ∧ i = j) ∧
    ∀ c, (σ.closure c).frame = some ((σ.cache u).stack i) → c = b ∧ i = (σ.cache u).head := by
  have h := State.Apart.reachable hr
  have hf := State.Framed.reachable hr
  exact ⟨fun v d j hd hj hjt he => h.eq_of_slot hf hb hd hi hlt hj hjt he,
    fun c hc => h.eq_of_frame hf hb hi hlt hc⟩

/-- Worker 1 executes the stolen `invoke_main`, and worker 0 the child. -/
theorem frame_has_one_place_stolen : ∃ σ : State (Fin 2),
    σ.control 0 = .user ∧ σ.control 1 = .user ∧ σ.topFrame 0 ≠ σ.topFrame 1 := by
  obtain ⟨σ, hr, hp⟩ := TransitionSystem.Reachable.of_eval (M := scheduler .small (0 : Fin 2))
    (stealRoot ++ [(1, .capture [0]), (1, .go), (1, .go), (1, .go)])
    (fun σ => σ.control 0 == .user && σ.control 1 == .user && (σ.cache 0).tail == 2 &&
      (σ.cache 1).tail == 1) (by decide +kernel)
  simp only [Bool.and_eq_true, beq_iff_eq] at hp
  obtain ⟨⟨⟨h0, h1⟩, htail : σ.place.tail 0 = 2⟩, htail' : σ.place.tail 1 = 1⟩ := hp
  have hv := (State.Sound.reachable hr).placed
  have hown := hv.own 0
  have hown' := hv.own 1
  rw [show σ.place.role 0 = .running from congrArg Control.role h0, Placement.Own, htail] at hown
  rw [show σ.place.role 1 = .running from congrArg Control.role h1, Placement.Own, htail'] at hown'
  obtain ⟨b, hb, hle⟩ := hown
  obtain ⟨d, hd, hle'⟩ := hown'
  refine ⟨σ, h0, h1, fun he => ?_⟩
  have he : (σ.cache 0).stack (σ.place.tail 0 - 1) = (σ.cache 1).stack (σ.place.tail 1 - 1) := he
  rw [htail, htail'] at he
  have hhead : σ.place.head 0 ≤ 1 := Nat.le_of_succ_le_succ hle
  have hhead' : σ.place.head 1 ≤ 0 := Nat.le_of_succ_le_succ hle'
  have hlt : 1 < σ.place.tail 0 := by rw [htail]; decide
  have hlt' : 0 < σ.place.tail 1 := by rw [htail']; decide
  cases ((frame_has_one_place hr hb hhead hlt).1 1 d 0 hd hhead' hlt' he).1

end Results

end Cilk
