import Cilk.Barrier.Protocol

/-!
# The barrier is safe and can be used again

The invariant of `Protocol` is kept by every step, in any interleaving. From it:
no worker leaves a round before all have entered it, the counter counts the
workers of one round, and where all are inside, one of them gets out.
-/

namespace Cilk.Barrier

variable {n : ℕ} {s s' : State n} {w : Fin n} {x : Worker}

/-! ## Steps of one worker -/

theorem worker_become_self : (s.become w x).worker w = x := Function.update_self ..

theorem worker_become_of_ne {u : Fin n} (hu : u ≠ w) :
    (s.become w x).worker u = s.worker u :=
  Function.update_of_ne hu ..

/-- A property of all workers, after worker `w` has become `x`. -/
theorem forall_become {p : Fin n → Worker → Prop} (hw : p w x)
    (h : ∀ u, u ≠ w → p u (s.worker u)) (u : Fin n) : p u ((s.become w x).worker u) := by
  by_cases hu : u = w
  · rw [hu, worker_become_self]
    exact hw
  · rw [worker_become_of_ne hu]
    exact h u hu

theorem arrivals_become (h : x.arrived = (s.worker w).arrived) :
    (s.become w x).arrivals = s.arrivals := by
  unfold State.arrivals
  refine congrArg Finset.card (Finset.filter_congr fun u _ => ?_)
  by_cases hu : u = w
  · rw [hu, worker_become_self, h]
    exact Iff.rfl
  · rw [worker_become_of_ne hu]
    exact Iff.rfl

namespace Sound

/-- **A step that counts nobody and ends no round**: worker `w` becomes `x`,
and is the last one exactly if it was. -/
theorem become (h : Sound s) (lock : Option (Fin n)) (counter : ℕ)
    (harrived : x.arrived = (s.worker w).arrived) (hplaced : x.Placed n s.published)
    (hdirection : x.direction = x.entered.bodd)
    (hlast : x.Last n ↔ (s.worker w).Last n)
    (hexclusive : Mutex.Exclusive lock fun u => ((s.become w x).worker u).pc.critical)
    (halone : x.pc.critical = true → (s.worker w).pc.critical = true ∨
      (s.worker w).arrived = s.published)
    (hcounter : counter = s.counter ∧ x.pc ≠ .publish ∧ (s.worker w).pc ≠ .publish ∨
      counter = 0 ∧ x.pc = .publish ∧ ∀ u, (s.worker u).pc ≠ .store)
    (hcopied : x.pc = .store → x.localCounter = counter) :
    Sound { s.become w x with lock := lock, counter := counter } := by
  have hlast' : ∀ u, ((s.become w x).worker u).Last n ↔ (s.worker u).Last n :=
    forall_become (p := fun u y => y.Last n ↔ (s.worker u).Last n) hlast fun _ _ => Iff.rfl
  have harrived' : ∀ u, ((s.become w x).worker u).arrived = (s.worker u).arrived :=
    forall_become (p := fun u y => y.arrived = (s.worker u).arrived) harrived fun _ _ => rfl
  refine ⟨hexclusive, h.release, ?_, ?_, ?_, ?_, ?_, ?_, ?_, ?_, ?_⟩
  · exact forall_become (p := fun _ y => y.direction = y.entered.bodd) hdirection
      fun u _ => h.direction u
  · exact forall_become (p := fun _ y => y.Placed n s.published) hplaced fun u _ => h.placed u
  · intro hnone
    show counter = (s.become w x).arrivals
    rw [arrivals_become harrived]
    rcases hcounter with ⟨rfl, -, hw⟩ | ⟨-, hx, -⟩
    · refine h.counter fun u hu => ?_
      by_cases huw : u = w
      · exact hw (huw ▸ hu)
      · refine hnone u ?_
        show ((s.become w x).worker u).pc = .publish
        rw [worker_become_of_ne huw]
        exact hu
    · refine absurd ?_ (hnone w)
      show ((s.become w x).worker w).pc = .publish
      rw [worker_become_self]
      exact hx
  · intro u hu
    rcases hcounter with ⟨rfl, hx, -⟩ | ⟨rfl, -, -⟩
    · refine h.reset u ?_
      revert hu
      refine forall_become (p := fun v y => y.pc = .publish → (s.worker v).pc = .publish)
        (fun hx' => absurd hx' hx) (fun _ _ => id) u
    · rfl
  · refine forall_become (p := fun _ y => y.pc = .store → y.localCounter = counter) hcopied
      fun u _ hu => ?_
    rcases hcounter with ⟨rfl, -, -⟩ | ⟨-, -, hnone⟩
    · exact h.copied u hu
    · exact absurd hu (hnone u)
  · intro v hv u
    show ((s.become w x).worker u).arrived = s.published + 1
    rw [harrived']
    exact h.all v ((hlast' v).mp hv) u
  · exact fun v u hv hu => h.unique v u ((hlast' v).mp hv) ((hlast' u).mp hu)
  · intro v u hv
    have hv := (hlast' v).mp hv
    refine forall_become (p := fun u y => y.pc.critical = true → u = v) (fun hx => ?_)
      (fun u _ => h.alone v u hv) u
    rcases halone hx with hc | ha
    · exact h.alone v w hv hc
    · have := h.all v hv w
      omega
  · intro u₀ hall
    obtain ⟨v, hv⟩ := h.exists_last u₀ fun u => (harrived' u).symm.trans (hall u)
    exact ⟨v, (hlast' v).mpr hv⟩

/-- Being inside the critical section does not change. -/
theorem exclusive_same (h : Sound s) (hx : x.pc.critical = (s.worker w).pc.critical) :
    Mutex.Exclusive s.lock fun u => ((s.become w x).worker u).pc.critical :=
  h.exclusive.same (forall_become (p := fun u y => y.pc.critical = (s.worker u).pc.critical) hx
    fun _ _ => rfl)

/-- A worker enters. -/
theorem enter (h : Sound s) (hw : (s.worker w).pc = .outside) :
    Sound (s.become w { s.worker w with
      pc := .wait, direction := !(s.worker w).direction,
      entered := (s.worker w).entered + 1 }) := by
  have hplaced := h.placed w
  unfold Worker.Placed at hplaced
  rw [hw] at hplaced
  obtain ⟨hentered, harrived, hleft⟩ := hplaced
  refine h.become s.lock s.counter rfl ⟨?_, harrived, hleft⟩ ?_ ?_ (h.exclusive_same ?_) nofun
    (.inl ⟨rfl, nofun, ?_⟩) nofun
  · show (s.worker w).entered + 1 = s.published + 1
    rw [hentered]
  · show (!(s.worker w).direction) = ((s.worker w).entered + 1).bodd
    rw [Nat.bodd_succ, h.direction]
  · unfold Worker.Last
    rw [hw]
  · rw [hw]
    rfl
  · rw [hw]
    nofun

/-- A worker takes the lock. -/
theorem acquire (h : Sound s) (hw : (s.worker w).pc = .wait) (hlock : s.lock = none) :
    Sound { s.become w { s.worker w with pc := .load } with lock := some w } := by
  have hplaced := h.placed w
  unfold Worker.Placed at hplaced
  rw [hw] at hplaced
  refine h.become (some w) s.counter rfl hplaced (h.direction w) ?_ ?_ (fun _ => .inr hplaced.2.1)
    (.inl ⟨rfl, nofun, ?_⟩) nofun
  · unfold Worker.Last
    rw [hw]
  · refine h.exclusive.lock w hlock (fun u hu => ?_) ?_
    · rw [worker_become_of_ne hu]
    · rw [worker_become_self]
      rfl
  · rw [hw]
    nofun

/-- A worker copies the counter. -/
theorem load (h : Sound s) (hw : (s.worker w).pc = .load) :
    Sound (s.become w { s.worker w with pc := .store, localCounter := s.counter }) := by
  have hplaced := h.placed w
  unfold Worker.Placed at hplaced
  rw [hw] at hplaced
  refine h.become s.lock s.counter rfl hplaced (h.direction w) ?_ (h.exclusive_same ?_)
    (fun _ => .inr hplaced.2.1) (.inl ⟨rfl, nofun, ?_⟩) fun _ => rfl
  · unfold Worker.Last
    rw [hw]
  · rw [hw]
    rfl
  · rw [hw]
    nofun

/-- A worker gives the lock back. -/
theorem signal (h : Sound s) (hw : (s.worker w).pc = .signal) :
    Sound { s.become w { s.worker w with pc := .compare } with lock := none } := by
  have hplaced := h.placed w
  unfold Worker.Placed at hplaced
  rw [hw] at hplaced
  refine h.become none s.counter rfl (.inl hplaced) (h.direction w) ?_ ?_ nofun
    (.inl ⟨rfl, nofun, ?_⟩) nofun
  · unfold Worker.Last
    rw [hw]
  · refine h.exclusive.unlock w ?_ (fun u hu => ?_) ?_
    · rw [hw]
      rfl
    · rw [worker_become_of_ne hu]
    · rw [worker_become_self]
      rfl
  · rw [hw]
    nofun

/-- The last worker of a round finds that it is. -/
theorem compareLast (h : Sound s) (hw : (s.worker w).pc = .compare)
    (hn : (s.worker w).localCounter = n) :
    Sound (s.become w { s.worker w with pc := .reset }) := by
  have hplaced := h.placed w
  unfold Worker.Placed at hplaced
  rw [hw] at hplaced
  refine h.become s.lock s.counter rfl (hplaced.resolve_right fun hl => hl.2 hn) (h.direction w) ?_
    (h.exclusive_same ?_) nofun (.inl ⟨rfl, nofun, ?_⟩) nofun
  · unfold Worker.Last
    rw [hw]
    exact iff_of_true trivial hn
  · rw [hw]
    rfl
  · rw [hw]
    nofun

/-- Another worker finds that it is not. -/
theorem compareOther (h : Sound s) (hw : (s.worker w).pc = .compare)
    (hn : (s.worker w).localCounter ≠ n) :
    Sound (s.become w { s.worker w with pc := .spin }) := by
  have hplaced := h.placed w
  unfold Worker.Placed at hplaced
  rw [hw] at hplaced
  refine h.become s.lock s.counter rfl (hplaced.imp id And.left) (h.direction w) ?_
    (h.exclusive_same ?_) nofun (.inl ⟨rfl, nofun, ?_⟩) nofun
  · unfold Worker.Last
    rw [hw]
    exact iff_of_false id hn
  · rw [hw]
    rfl
  · rw [hw]
    nofun

/-- The last worker is alone, and nobody is between a load and a store. -/
theorem not_store (h : Sound s) (hw : (s.worker w).Last n) (u : Fin n) :
    (s.worker u).pc ≠ .store := by
  intro hu
  have hplaced := h.placed u
  unfold Worker.Placed at hplaced
  rw [hu] at hplaced
  have := h.all w hw u
  omega

/-- The last worker resets the counter. -/
theorem resetCounter (h : Sound s) (hw : (s.worker w).pc = .reset) :
    Sound { s.become w { s.worker w with pc := .publish } with counter := 0 } := by
  have hplaced := h.placed w
  unfold Worker.Placed at hplaced
  rw [hw] at hplaced
  have hlast : (s.worker w).Last n := by
    unfold Worker.Last
    rw [hw]
    trivial
  refine h.become s.lock 0 rfl hplaced (h.direction w) (iff_of_true trivial hlast)
    (h.exclusive_same ?_) nofun (.inr ⟨rfl, rfl, h.not_store hlast⟩) nofun
  rw [hw]
  rfl

/-- A worker leaves a round that is over. -/
theorem leave (h : Sound s) (hw : (s.worker w).pc = .spin)
    (hrelease : s.release = (s.worker w).direction) :
    Sound (s.become w { s.worker w with pc := .outside, left := (s.worker w).left + 1 }) := by
  have hplaced := h.placed w
  unfold Worker.Placed at hplaced
  rw [hw] at hplaced
  have hleaving : (s.worker w).Leaving s.published := by
    refine hplaced.resolve_left fun hc => ?_
    -- in the round that is going on the direction is not published yet
    rw [h.release, h.direction, hc.1, Nat.bodd_succ] at hrelease
    exact (Bool.eq_not_self _).mp hrelease
  refine h.become s.lock s.counter rfl hleaving (h.direction w) ?_ (h.exclusive_same ?_) nofun
    (.inl ⟨rfl, nofun, ?_⟩) nofun
  · unfold Worker.Last
    rw [hw]
  · rw [hw]
    rfl
  · rw [hw]
    nofun

/-- Before all have counted themselves nobody is the last one. -/
theorem not_last (h : Sound s) (hw : (s.worker w).arrived = s.published) (u : Fin n) :
    ¬ (s.worker u).Last n := by
  intro hu
  have := h.all u hu w
  omega

/-- **A worker about to count itself** finds the number of those that have
counted themselves in its round. -/
theorem counter_eq (h : Sound s) (hw : (s.worker w).arrived = s.published) :
    s.counter = s.arrivals := by
  refine h.counter fun u hu => h.not_last hw u ?_
  unfold Worker.Last
  rw [hu]
  trivial

/-- A worker counts itself. -/
theorem store (h : Sound s) (hw : (s.worker w).pc = .store) :
    Sound { s.become w { s.worker w with
      pc := .signal, localCounter := (s.worker w).localCounter + 1,
      arrived := (s.worker w).arrived + 1 } with counter := (s.worker w).localCounter + 1 } := by
  have hplaced := h.placed w
  unfold Worker.Placed at hplaced
  rw [hw] at hplaced
  obtain ⟨hentered, harrived, hleft⟩ := hplaced
  have hcritical : (s.worker w).pc.critical = true := by
    rw [hw]
    rfl
  set x : Worker := { s.worker w with
    pc := .signal, localCounter := (s.worker w).localCounter + 1,
    arrived := (s.worker w).arrived + 1 } with hx
  have hcounter : (s.worker w).localCounter = s.arrivals := by
    rw [h.copied w hw, h.counter_eq harrived]
  have harrivals : (s.become w x).arrivals = s.arrivals + 1 := by
    have hnot : w ∉ Finset.univ.filter fun u => (s.worker u).arrived = s.published + 1 := by
      rw [Finset.mem_filter, harrived]
      exact fun hmem => (Nat.succ_ne_self _) hmem.2.symm
    unfold State.arrivals
    rw [← Finset.card_insert_of_notMem hnot]
    refine congrArg Finset.card (Finset.ext fun u => ?_)
    rw [Finset.mem_insert, Finset.mem_filter, Finset.mem_filter]
    by_cases hu : u = w
    · rw [hu, worker_become_self]
      exact iff_of_true ⟨Finset.mem_univ _, congrArg (· + 1) harrived⟩ (.inl rfl)
    · rw [worker_become_of_ne hu]
      exact ⟨.inr, fun hor => hor.resolve_left hu⟩
  have hlast : ∀ u, ((s.become w x).worker u).Last n → u = w := by
    intro u hu
    by_contra hne
    rw [worker_become_of_ne hne] at hu
    exact h.not_last harrived u hu
  have hall : x.Last n ↔ ∀ u, ((s.become w x).worker u).arrived = s.published + 1 := by
    calc (s.worker w).localCounter + 1 = n ↔ (s.become w x).arrivals = n := by
          rw [hcounter, harrivals]
      _ ↔ (Finset.univ.filter fun u =>
            ((s.become w x).worker u).arrived = s.published + 1).card =
          (Finset.univ : Finset (Fin n)).card := by
          rw [Finset.card_univ, Fintype.card_fin]
          rfl
      _ ↔ _ := by
          rw [Finset.card_filter_eq_iff]
          exact ⟨fun hu u => hu u (Finset.mem_univ u), fun hu u _ => hu u⟩
  refine ⟨h.exclusive_same ?_, h.release, ?_, ?_, fun _ => ?_, ?_, ?_, ?_, ?_, ?_, ?_⟩
  · rw [hw]
    rfl
  · exact forall_become (p := fun _ y => y.direction = y.entered.bodd) (h.direction w)
      fun u _ => h.direction u
  · exact forall_become (p := fun _ y => y.Placed n s.published)
      ⟨hentered, congrArg (· + 1) harrived, hleft⟩ fun u _ => h.placed u
  · show (s.worker w).localCounter + 1 = (s.become w x).arrivals
    rw [harrivals, hcounter]
  · refine forall_become (p := fun _ y => y.pc = .publish → (s.worker w).localCounter + 1 = 0)
      nofun fun u _ hu => absurd ?_ (h.not_last harrived u)
    unfold Worker.Last
    rw [hu]
    trivial
  · refine forall_become (p := fun _ y => y.pc = .store →
      y.localCounter = (s.worker w).localCounter + 1) nofun fun u hne hu => absurd ?_ hne
    refine h.exclusive.unique (?_ : (s.worker u).pc.critical = true) hcritical
    rw [hu]
    rfl
  · intro v hv
    obtain rfl := hlast v hv
    refine hall.mp ?_
    rw [← worker_become_self (s := s) (w := v) (x := x)]
    exact hv
  · exact fun v u hv hu => (hlast v hv).trans (hlast u hu).symm
  · intro v u hv
    obtain rfl := hlast v hv
    refine forall_become (p := fun u y => y.pc.critical = true → u = v) (fun _ => rfl)
      (fun u _ hu => h.exclusive.unique hu hcritical) u
  · intro _ hu
    refine ⟨w, ?_⟩
    show ((s.become w x).worker w).Last n
    rw [worker_become_self]
    exact hall.mpr hu

/-- The last worker ends the round. -/
theorem publish (h : Sound s) (hw : (s.worker w).pc = .publish) :
    Sound { s.become w { s.worker w with pc := .outside, left := (s.worker w).left + 1 } with
      release := (s.worker w).direction, published := s.published + 1 } := by
  have hplaced := h.placed w
  unfold Worker.Placed at hplaced
  rw [hw] at hplaced
  obtain ⟨hentered, harrived, hleft⟩ := hplaced
  have hlast : (s.worker w).Last n := by
    unfold Worker.Last
    rw [hw]
    trivial
  have hall := h.all w hlast
  have hother : ∀ u, u ≠ w → ¬ (s.worker u).Last n := fun u hne hu => hne (h.unique u w hu hlast)
  set x : Worker := { s.worker w with pc := .outside, left := (s.worker w).left + 1 } with hx
  have hnone : ∀ u, ¬ ((s.become w x).worker u).Last n :=
    forall_become (p := fun _ y => ¬ y.Last n) id hother
  have harrived' : ∀ u, ((s.become w x).worker u).arrived = s.published + 1 :=
    forall_become (p := fun _ y => y.arrived = s.published + 1) harrived fun u _ => hall u
  refine ⟨h.exclusive_same ?_, ?_, ?_, ?_, fun _ => ?_, ?_, ?_, ?_, ?_, ?_, ?_⟩
  · rw [hw]
    rfl
  · show (s.worker w).direction = (s.published + 1).bodd
    rw [h.direction, hentered]
  · exact forall_become (p := fun _ y => y.direction = y.entered.bodd) (h.direction w)
      fun u _ => h.direction u
  · refine forall_become (p := fun _ y => y.Placed n (s.published + 1))
      ⟨hentered, harrived, congrArg (· + 1) hleft⟩ fun u hne => ?_
    have hplaced := h.placed u
    have hu := hall u
    have hnot := hother u hne
    have hcritical : (s.worker u).pc.critical ≠ true := fun hc => hne (h.alone w u hlast hc)
    unfold Worker.Placed at hplaced ⊢
    unfold Worker.Last at hnot
    cases hpc : (s.worker u).pc with
    | outside | wait | load | store =>
      rw [hpc] at hplaced
      have : s.published = s.published + 1 := hplaced.2.1.symm.trans hu
      omega
    | signal =>
      rw [hpc] at hcritical
      exact absurd rfl hcritical
    | reset | publish =>
      rw [hpc] at hnot
      exact absurd trivial hnot
    | compare =>
      rw [hpc] at hplaced hnot
      refine .inr ⟨?_, hnot⟩
      obtain ⟨he, ha, hl⟩ := hplaced.resolve_right fun hl => by
        have : s.published = s.published + 1 := hl.1.2.1.symm.trans hu
        omega
      exact ⟨he, ha, congrArg (· + 1) hl⟩
    | spin =>
      rw [hpc] at hplaced
      obtain ⟨he, ha, hl⟩ := hplaced.resolve_right fun hl => by
        have : s.published = s.published + 1 := hl.2.1.symm.trans hu
        omega
      exact .inr ⟨he, ha, congrArg (· + 1) hl⟩
  · show s.counter = _
    rw [h.reset w hw]
    refine (Finset.card_eq_zero.mpr (Finset.filter_eq_empty_iff.mpr fun u _ hu => ?_)).symm
    have : s.published + 1 = s.published + 1 + 1 := (harrived' u).symm.trans hu
    omega
  · exact fun u _ => h.reset w hw
  · exact forall_become (p := fun _ y => y.pc = .store → y.localCounter = s.counter) nofun
      fun u _ hu => absurd hu (h.not_store hlast u)
  · exact fun v hv => absurd hv (hnone v)
  · exact fun v _ hv => absurd hv (hnone v)
  · exact fun v _ hv => absurd hv (hnone v)
  · intro u₀ hu
    have : s.published + 1 = s.published + 1 + 1 := (harrived' u₀).symm.trans (hu u₀)
    omega

/-- **Every step keeps the invariant.** -/
theorem step (h : Sound s) (hstep : State.step w s = some s') : Sound s' := by
  unfold State.step at hstep
  cases hw : (s.worker w).pc with
  | outside =>
    simp only [hw] at hstep
    exact Option.some.inj hstep ▸ h.enter hw
  | wait =>
    simp only [hw] at hstep
    split_ifs at hstep with hlock
    exact Option.some.inj hstep ▸ h.acquire hw hlock
  | load =>
    simp only [hw] at hstep
    exact Option.some.inj hstep ▸ h.load hw
  | store =>
    simp only [hw] at hstep
    exact Option.some.inj hstep ▸ h.store hw
  | signal =>
    simp only [hw] at hstep
    exact Option.some.inj hstep ▸ h.signal hw
  | compare =>
    simp only [hw] at hstep
    split_ifs at hstep with hn
    · exact Option.some.inj hstep ▸ h.compareLast hw hn
    · exact Option.some.inj hstep ▸ h.compareOther hw hn
  | reset =>
    simp only [hw] at hstep
    exact Option.some.inj hstep ▸ h.resetCounter hw
  | publish =>
    simp only [hw] at hstep
    exact Option.some.inj hstep ▸ h.publish hw
  | spin =>
    simp only [hw] at hstep
    split_ifs at hstep with hrelease
    · exact Option.some.inj hstep ▸ h
    · exact Option.some.inj hstep ▸ h.leave hw (not_not.mp hrelease)

theorem init : Sound (State.init n) where
  exclusive := fun _ => iff_of_false nofun nofun
  release := Nat.bodd_zero.symm
  direction := fun _ => Nat.bodd_zero.symm
  placed := fun _ => ⟨rfl, rfl, rfl⟩
  counter := fun _ => (Finset.card_eq_zero.mpr (Finset.filter_eq_empty_iff.mpr
    fun _ _ h => nomatch h)).symm
  reset := fun _ h => nomatch h
  copied := fun _ h => nomatch h
  all := fun _ h => h.elim
  unique := fun _ _ h => h.elim
  alone := fun _ _ h => h.elim
  exists_last := fun u h => nomatch h u

theorem reachable (hs : (protocol n).Reachable s) : Sound s :=
  hs.invariant init fun _ _ _ _ h hstep => h.step hstep

/-- **Nobody leaves a round before all have entered it.** -/
theorem left_le_entered (h : Sound s) (w u : Fin n) :
    (s.worker w).left ≤ (s.worker u).entered := by
  have hw := h.placed w
  have hu := h.placed u
  unfold Worker.Placed Worker.Counted Worker.Leaving at hw hu
  calc (s.worker w).left ≤ s.published := by split at hw <;> omega
    _ ≤ (s.worker u).entered := by split at hu <;> omega

/-- **The counter counts one round**: that of the worker that is about to
count itself. -/
theorem counter_of_store (h : Sound s) (hw : (s.worker w).pc = .store) :
    (s.worker w).entered = s.published + 1 ∧ (s.worker w).localCounter = s.arrivals ∧
      s.counter = s.arrivals := by
  have hplaced := h.placed w
  unfold Worker.Placed at hplaced
  rw [hw] at hplaced
  have hcounter := h.counter_eq hplaced.2.1
  exact ⟨hplaced.1, (h.copied w hw).trans hcounter, hcounter⟩

/-- Nobody is counted in a round after the one that is going on. -/
theorem arrived_le (h : Sound s) (w : Fin n) : (s.worker w).arrived ≤ s.published + 1 := by
  have hw := h.placed w
  unfold Worker.Placed Worker.Counted Worker.Leaving at hw
  split at hw <;> omega

end Sound

/-! ## Getting out -/

/-- All workers are inside their `k`-th call. -/
def State.Inside (s : State n) (k : ℕ) : Prop :=
  ∀ w, (s.worker w).entered = k ∧ (s.worker w).left + 1 = k

/-- How many steps a worker takes before it spins or leaves. -/
def Pc.remaining : Pc → ℕ
  | .outside | .spin => 0
  | .wait => 7
  | .load => 6
  | .store => 5
  | .signal => 4
  | .compare => 3
  | .reset => 2
  | .publish => 1

def State.remaining (s : State n) : ℕ := ∑ w, (s.worker w).pc.remaining

/-- How many steps of a run are not a test of the loop on `barrier_release`. -/
def State.movements : List (Fin n) → State n → ℕ
  | [], _ => 0
  | w :: ws, s =>
    (if (s.worker w).pc = .spin then 0 else 1) +
      match s.step w with
      | some s' => movements ws s'
      | none => 0

theorem remaining_become (s : State n) (w : Fin n) (x : Worker) :
    (s.become w x).remaining + (s.worker w).pc.remaining = s.remaining + x.pc.remaining := by
  unfold State.remaining
  rw [← Finset.add_sum_erase _ _ (Finset.mem_univ w), ← Finset.add_sum_erase _ _ (Finset.mem_univ w)]
  rw [worker_become_self, Finset.sum_congr rfl fun u hu => by
    rw [worker_become_of_ne (Finset.ne_of_mem_erase hu)]]
  omega

theorem remaining_le (s : State n) : s.remaining ≤ 7 * n := by
  calc s.remaining ≤ ∑ _w : Fin n, 7 := Finset.sum_le_sum fun w _ => by
        cases (s.worker w).pc <;> decide
    _ = 7 * n := by rw [Finset.sum_const, Finset.card_univ, Fintype.card_fin, smul_eq_mul, mul_comm]

section

variable {k : ℕ}

theorem inside_become (h : s.Inside k) (hentered : x.entered = (s.worker w).entered)
    (hleft : x.left = (s.worker w).left) : (s.become w x).Inside k :=
  forall_become (p := fun _ y => y.entered = k ∧ y.left + 1 = k)
    ⟨hentered.trans (h w).1, (congrArg (· + 1) hleft).trans (h w).2⟩ fun u _ => h u

/-- A worker gets nearer to the loop. -/
theorem remaining_become_lt {c c' : Pc} (hw : (s.worker w).pc = c) (hx : x.pc = c')
    (h : c'.remaining < c.remaining) : (s.become w x).remaining + 1 ≤ s.remaining := by
  have := remaining_become s w x
  rw [hw, hx] at this
  omega

/-- **A step inside a call** leads out of it, or on towards the loop, or is a
test of the loop that fails. -/
theorem inside_step (h : Sound s) (hin : s.Inside k) (hstep : State.step w s = some s') :
    (s'.Inside k ∨ (s'.worker w).left = k) ∧
      s'.remaining + (if (s.worker w).pc = .spin then 0 else 1) ≤ s.remaining := by
  obtain ⟨hentered, hleft⟩ := hin w
  unfold State.step at hstep
  cases hw : (s.worker w).pc with
  | outside =>
    have hplaced := h.placed w
    unfold Worker.Placed at hplaced
    rw [hw] at hplaced
    omega
  | wait =>
    simp only [hw] at hstep
    split_ifs at hstep with hlock
    obtain rfl := Option.some.inj hstep
    exact ⟨.inl (inside_become hin rfl rfl), remaining_become_lt hw rfl (Nat.lt_succ_self _)⟩
  | load | store | signal | reset =>
    simp only [hw] at hstep
    obtain rfl := Option.some.inj hstep
    exact ⟨.inl (inside_become hin rfl rfl), remaining_become_lt hw rfl (Nat.lt_succ_self _)⟩
  | compare =>
    simp only [hw] at hstep
    split_ifs at hstep with hn
    · obtain rfl := Option.some.inj hstep
      exact ⟨.inl (inside_become hin rfl rfl), remaining_become_lt hw rfl (Nat.lt_succ_self _)⟩
    · obtain rfl := Option.some.inj hstep
      exact ⟨.inl (inside_become hin rfl rfl), remaining_become_lt hw rfl (Nat.succ_pos _)⟩
  | publish =>
    simp only [hw] at hstep
    obtain rfl := Option.some.inj hstep
    refine ⟨.inr ?_, remaining_become_lt hw rfl (Nat.lt_succ_self _)⟩
    show ((s.become w _).worker w).left = k
    rw [worker_become_self]
    exact hleft
  | spin =>
    simp only [hw] at hstep
    split_ifs at hstep with hrelease
    · obtain rfl := Option.some.inj hstep
      exact ⟨.inl hin, le_rfl⟩
    · obtain rfl := Option.some.inj hstep
      refine ⟨.inr ?_, ?_⟩
      · rw [worker_become_self]
        exact hleft
      · have := remaining_become s w
          { s.worker w with pc := .outside, left := (s.worker w).left + 1 }
        rw [hw] at this
        exact this.le

/-- **All inside and nobody about to move**: they all spin, and the round is
over. -/
theorem exists_move (h : Sound s) (hn : 0 < n) (hin : s.Inside k) :
    ∃ w s', State.step w s = some s' ∧
      ((s.worker w).pc ≠ .spin ∨ (s'.worker w).left = k) := by
  have hinside : ∀ w, (s.worker w).pc ≠ .outside := by
    intro w hw
    have hplaced := h.placed w
    unfold Worker.Placed at hplaced
    rw [hw] at hplaced
    have := hin w
    omega
  by_cases hmove : ∃ w s', State.step w s = some s' ∧ (s.worker w).pc ≠ .spin
  · obtain ⟨w, s', hstep, hw⟩ := hmove
    exact ⟨w, s', hstep, .inl hw⟩
  have hstuck : ∀ w, (s.worker w).pc ≠ .spin → State.step w s = none := by
    intro w hw
    by_contra hne
    obtain ⟨s', hstep⟩ := Option.ne_none_iff_exists'.mp hne
    exact hmove ⟨w, s', hstep, hw⟩
  have hcritical : ∀ w, (s.worker w).pc.critical = false := by
    intro w
    have hw := hstuck w
    unfold State.step at hw
    cases hpc : (s.worker w).pc with
    | outside | wait | compare | reset | publish | spin => rfl
    | load | store | signal =>
      simp only [hpc] at hw
      nomatch hw nofun
  have hfree : s.lock = none := by
    refine Option.eq_none_iff_forall_ne_some.mpr fun w hw => ?_
    exact Bool.false_ne_true ((hcritical w).symm.trans ((h.exclusive w).mp hw))
  have hspin : ∀ w, (s.worker w).pc = .spin := by
    intro w
    have hw := hstuck w
    unfold State.step at hw
    cases hpc : (s.worker w).pc with
    | spin => rfl
    | outside => exact absurd hpc (hinside w)
    | wait =>
      simp only [hpc, if_pos hfree] at hw
      nomatch hw nofun
    | compare =>
      simp only [hpc] at hw
      split_ifs at hw with hlast
      · nomatch hw nofun
      · nomatch hw nofun
    | load | store | signal | reset | publish =>
      simp only [hpc] at hw
      nomatch hw nofun
  have hleaving : ∀ w, (s.worker w).Leaving s.published := by
    intro w
    have hplaced (u : Fin n) : (s.worker u).Counted s.published ∨
        (s.worker u).Leaving s.published := by
      have := h.placed u
      unfold Worker.Placed at this
      rwa [hspin u] at this
    refine (hplaced w).resolve_left fun hcounted => ?_
    have hall : ∀ u, (s.worker u).arrived = s.published + 1 := by
      intro u
      refine ((hplaced u).resolve_right fun hl => ?_).2.1
      have := hcounted.1.symm.trans ((hin w).1.trans ((hin u).1.symm.trans hl.1))
      omega
    obtain ⟨v, hv⟩ := h.exists_last w hall
    unfold Worker.Last at hv
    rw [hspin v] at hv
    exact hv
  refine ⟨⟨0, hn⟩, s.become ⟨0, hn⟩ { s.worker ⟨0, hn⟩ with
    pc := .outside, left := (s.worker ⟨0, hn⟩).left + 1 }, ?_, .inr ?_⟩
  · unfold State.step
    simp only [hspin]
    rw [if_neg]
    rw [h.release, h.direction, (hleaving _).1]
    exact not_not.mpr rfl
  · rw [worker_become_self]
    exact (hin _).2

/-- A step takes back no leaving. -/
theorem left_le_left (hstep : State.step w s = some s') (u : Fin n) :
    (s.worker u).left ≤ (s'.worker u).left := by
  have hbecome {x : Worker} (hx : (s.worker w).left ≤ x.left) :
      (s.worker u).left ≤ ((s.become w x).worker u).left :=
    forall_become (p := fun v y => (s.worker v).left ≤ y.left) hx (fun _ _ => le_rfl) u
  unfold State.step at hstep
  cases hw : (s.worker w).pc with
  | outside | load | store | signal | reset =>
    simp only [hw] at hstep
    obtain rfl := Option.some.inj hstep
    exact hbecome le_rfl
  | wait =>
    simp only [hw] at hstep
    split_ifs at hstep
    obtain rfl := Option.some.inj hstep
    exact hbecome le_rfl
  | compare =>
    simp only [hw] at hstep
    split_ifs at hstep
    · obtain rfl := Option.some.inj hstep
      exact hbecome le_rfl
    · obtain rfl := Option.some.inj hstep
      exact hbecome le_rfl
  | publish =>
    simp only [hw] at hstep
    obtain rfl := Option.some.inj hstep
    exact hbecome (Nat.le_succ _)
  | spin =>
    simp only [hw] at hstep
    split_ifs at hstep
    · obtain rfl := Option.some.inj hstep
      exact le_rfl
    · obtain rfl := Option.some.inj hstep
      exact hbecome (Nat.le_succ _)

/-- **A run from a state with all inside** uses up what remains to be done, or
gets someone out. -/
theorem inside_run {ws : List (Fin n)} (h : Sound s) (hin : s.Inside k)
    (hrun : (protocol n).run ws s = some s') :
    (s'.Inside k ∧ s'.remaining + State.movements ws s ≤ s.remaining) ∨
      ∃ w, k ≤ (s'.worker w).left := by
  induction ws generalizing s with
  | nil =>
    obtain rfl := Option.some.inj hrun
    exact .inl ⟨hin, le_rfl⟩
  | cons w ws ih =>
    obtain ⟨t, hstep, hrest⟩ := Option.bind_eq_some_iff.mp hrun
    obtain ⟨hnext, hless⟩ := inside_step h hin hstep
    rcases hnext with hnext | hout
    · refine (ih (h.step hstep) hnext hrest).imp_left fun hend => ⟨hend.1, ?_⟩
      have hmovements : State.movements (w :: ws) s =
          (if (s.worker w).pc = .spin then 0 else 1) + State.movements ws t := by
        rw [State.movements, show State.step w s = some t from hstep]
      rw [hmovements]
      omega
    · refine .inr ⟨w, (protocol n).run_induction (P := fun t => k ≤ (t.worker w).left)
        (fun _ _ _ ht hstep => ht.trans (left_le_left hstep w)) hout.ge hrest⟩

/-- **From a state with all inside, a run gets someone out.** -/
theorem exists_run_out (h : Sound s) (hn : 0 < n) (hin : s.Inside k) :
    ∃ ws s', (protocol n).run ws s = some s' ∧ ∃ w, (s'.worker w).left = k := by
  induction hr : s.remaining using Nat.strong_induction_on generalizing s with
  | _ r ih =>
    obtain ⟨w, s', hstep, hmove⟩ := exists_move h hn hin
    obtain ⟨hnext, hless⟩ := inside_step h hin hstep
    by_cases hout : (s'.worker w).left = k
    · exact ⟨[w], s', Option.bind_eq_some_iff.mpr ⟨s', hstep, rfl⟩, w, hout⟩
    · rw [if_neg (hmove.resolve_right hout)] at hless
      obtain ⟨ws, t, hrun, hend⟩ := ih s'.remaining (by omega) (h.step hstep)
        (hnext.resolve_right hout) rfl
      exact ⟨w :: ws, t, Option.bind_eq_some_iff.mpr ⟨s', hstep, hrun⟩, hend⟩

/-- Counting oneself ends no round, and nobody is about to end it. -/
theorem stored (h : Sound s) (hstep : State.step w s = some s') (hw : (s.worker w).pc = .store) :
    s'.published = s.published ∧ ∀ u, (s'.worker u).pc ≠ .publish := by
  have hplaced := h.placed w
  unfold Worker.Placed at hplaced
  rw [hw] at hplaced
  unfold State.step at hstep
  simp only [hw] at hstep
  obtain rfl := Option.some.inj hstep
  refine ⟨rfl, forall_become (p := fun _ y => y.pc ≠ .publish) nofun fun u _ hu => ?_⟩
  refine h.not_last hplaced.2.1 u ?_
  unfold Worker.Last
  rw [hu]
  trivial

/-- **The barrier is safe and can be used again.** In every reachable state:
nobody has left a round that someone has not entered; whoever is about to
write the counter finds and leaves there the number of those that are counted
in its own round, and nobody is counted in a later one; and while all are
inside their `k`-th call, someone can get out. As long as nobody has, the
workers take at most `7 * n` steps apart from tests of the loop that fail, and
one of them has such a step, or leaves. -/
theorem barrier_is_safe (hs : (protocol n).Reachable s) :
    (∀ w u, (s.worker w).left ≤ (s.worker u).entered) ∧
    (∀ w s', State.step w s = some s' → (s.worker w).pc = .store →
      s.counter = (Finset.univ.filter fun u => (s.worker u).arrived = (s.worker w).entered).card ∧
      s'.counter =
        (Finset.univ.filter fun u => (s'.worker u).arrived = (s.worker w).entered).card ∧
      ∀ u, (s'.worker u).arrived ≤ (s.worker w).entered) ∧
    (0 < n → ∀ k, s.Inside k →
      (∃ ws s', (protocol n).run ws s = some s' ∧ ∃ w, (s'.worker w).left = k) ∧
      ∀ ws s', (protocol n).run ws s = some s' → (∀ w, (s'.worker w).left < k) →
        State.movements ws s ≤ 7 * n ∧
        ∃ w s'', State.step w s' = some s'' ∧
          ((s'.worker w).pc ≠ .spin ∨ (s''.worker w).left = k)) := by
  have h := Sound.reachable hs
  refine ⟨h.left_le_entered, fun w s' hstep hw => ?_, fun hn k hin => ⟨exists_run_out h hn hin, ?_⟩⟩
  · obtain ⟨hentered, hlocal, hcounter⟩ := h.counter_of_store hw
    have h' := h.step hstep
    have hstored := stored h hstep hw
    rw [hentered, ← hstored.1]
    exact ⟨hstored.1 ▸ hcounter, h'.counter hstored.2, h'.arrived_le⟩
  · intro ws s' hrun hleft
    have hend := (inside_run h hin hrun).resolve_right fun ⟨w, hw⟩ => (hleft w).not_ge hw
    refine ⟨?_, exists_move (.reachable (hs.run hrun)) hn hend.1⟩
    have := remaining_le s
    omega

/-- Two workers that have entered their first call. -/
theorem barrier_is_safe_two : ∃ s : State 2, (protocol 2).Reachable s ∧ s.Inside 1 ∧
    (∀ w u, (s.worker w).left ≤ (s.worker u).entered) ∧
    ∃ ws s', (protocol 2).run ws s = some s' ∧ ∃ w, (s'.worker w).left = 1 := by
  obtain ⟨s, hr, hp⟩ := TransitionSystem.Reachable.of_eval (M := protocol 2) [0, 1]
    (fun s => decide (∀ w, (s.worker w).entered = 1 ∧ (s.worker w).left + 1 = 1)) (by decide)
  have hin : ∀ w, (s.worker w).entered = 1 ∧ (s.worker w).left + 1 = 1 := of_decide_eq_true hp
  have h := barrier_is_safe hr
  exact ⟨s, hr, hin, h.1, (h.2.2 Nat.two_pos 1 hin).1⟩

end

end Cilk.Barrier
