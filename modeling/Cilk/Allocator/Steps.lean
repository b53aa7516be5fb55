import Cilk.Allocator.Invariant

/-!
# The steps keep the invariant

One lemma for each way a step can move a block: none at all, from a free list
to the program or to the hands of a call, back from either, and between the
shared lists or the pool and the hands of a batch. Then every shape of a
stack has one step, and every call of the program one beginning.
-/

namespace Cilk.Allocator

open Allocator.State

variable {W : Type*} [DecidableEq W]

namespace State

@[simp] theorem descriptor_setImDescriptor (s : State W) (w : W) (b : Bucket) (d : Descriptor) :
    (s.setImDescriptor w b d).descriptor = Function.update s.descriptor (some w, b) d := by
  funext ⟨o, k⟩
  cases o with
  | none => rw [Function.update_of_ne (by simp)]; rfl
  | some u =>
    simp only [descriptor, setImDescriptor, Function.update_apply, Prod.mk.injEq, Option.some.injEq]
    split_ifs <;> grind

theorem descriptor_global (s : State W) (b : Bucket) (d : Descriptor) :
    { s with globalImDescriptor := Function.update s.globalImDescriptor b d }.descriptor
      = Function.update s.descriptor (none, b) d := by
  funext ⟨o, k⟩
  cases o with
  | none =>
    simp only [descriptor, Function.update_apply, Prod.mk.injEq, true_and]
  | some u => rw [Function.update_of_ne (by simp)]; rfl

end State

namespace State

@[simp] theorem goto_stack_self (s : State W) (w : W) (fs : List Frame) :
    (s.goto w fs).stack w = fs :=
  Function.update_self ..

end State

namespace Sound

variable [Fintype W] {cfg : Config} {s s' : State W} {L : BlockLedger W} {w : W}

/-- The mutex, where no worker but `w` comes or goes. -/
theorem lock_same (h : Sound cfg s L) {fs : List Frame} (hlock : locked fs = locked (s.stack w)) :
    Mutex.Exclusive s.globalImLock fun u => locked (Function.update s.stack w fs u) := by
  refine Mutex.Exclusive.same h.lock fun u => ?_
  rcases eq_or_ne u w with rfl | hu
  · rw [Function.update_self, hlock]
  · rw [Function.update_of_ne hu]

/-- **Control moves**: no block changes hands. -/
theorem control (h : Sound cfg s L) {fs : List Frame} {m : Option W} {info : W → Stats}
    (hhands : hands fs = hands (s.stack w))
    (hshape : Shape cfg (fun b => (L.stack (some w, b)).length) s.carved fs)
    (hlock : Mutex.Exclusive m fun u => locked (Function.update s.stack w fs u))
    (hinfo : ∀ u, u ≠ w → info u = s.imInfo u)
    (hnet : ((info w).used, (info w).nmalloc) - (fs.map Frame.owed).sum = s.net w) :
    Sound cfg ({ s with globalImLock := m, imInfo := info }.goto w fs) L := by
  have hself : ({ s with globalImLock := m, imInfo := info }.goto w fs).stack w = fs :=
    Function.update_self ..
  refine h.update w h.books (h.layout.same rfl rfl rfl rfl rfl rfl) h.holdings
    (fun u hu => Function.update_of_ne hu ..) (fun _ _ _ => rfl) (fun _ _ => id)
    (fun _ _ _ => Iff.rfl) (fun a => ?_) ?_ ?_ (h.length_le w) hlock hinfo ?_
  · rw [hself, hhands]
    exact h.hand w a
  · rw [hself, hhands]
    exact h.handNodup w
  · rw [hself]
    exact hshape
  · have : ({ s with globalImLock := m, imInfo := info }.goto w fs).net w = s.net w := by
      rw [State.net, hself]
      exact hnet
    rw [this]
    rfl

/-- A control move inside a critical section, or outside. -/
theorem goto (h : Sound cfg s L) {fs : List Frame} (hhands : hands fs = hands (s.stack w))
    (hshape : Shape cfg (fun b => (L.stack (some w, b)).length) s.carved fs)
    (hlock : locked fs = locked (s.stack w))
    (howed : (fs.map Frame.owed).sum = ((s.stack w).map Frame.owed).sum) :
    Sound cfg (s.goto w fs) L :=
  h.control hhands hshape (h.lock_same hlock) (fun _ _ => rfl) (by rw [howed]; rfl)

/-- A call or a return that is accounted for. -/
theorem account (h : Sound cfg s L) {fs : List Frame} {size n : CInt}
    (hhands : hands fs = hands (s.stack w))
    (hshape : Shape cfg (fun b => (L.stack (some w, b)).length) s.carved fs)
    (hlock : locked fs = locked (s.stack w))
    (howed : (fs.map Frame.owed).sum = ((s.stack w).map Frame.owed).sum + (size, n)) :
    Sound cfg ((s.account w size n).goto w fs) L := by
  refine h.control hhands hshape (h.lock_same hlock) (fun u hu => Function.update_of_ne hu ..) ?_
  rw [Function.update_self, howed]
  simp only [Stats.add, State.net, ← Prod.mk_add_mk]
  ring

/-- A batch begins. -/
theorem acquire (h : Sound cfg s L) {fs : List Frame} (hfree : s.globalImLock = none)
    (hhands : hands fs = hands (s.stack w))
    (hshape : Shape cfg (fun b => (L.stack (some w, b)).length) s.carved fs)
    (hlocked : locked fs = true)
    (howed : (fs.map Frame.owed).sum = ((s.stack w).map Frame.owed).sum) :
    Sound cfg ({ s with globalImLock := some w }.goto w fs) L := by
  refine h.control hhands hshape ?_ (fun _ _ => rfl) (by rw [howed]; rfl)
  refine h.lock.lock w hfree (fun u hu => ?_) ?_
  · rw [Function.update_of_ne hu]
  · rw [Function.update_self, hlocked]

/-- A batch ends. -/
theorem unlock (h : Sound cfg s L) {fs : List Frame} (hheld : locked (s.stack w) = true)
    (hhands : hands fs = hands (s.stack w))
    (hshape : Shape cfg (fun b => (L.stack (some w, b)).length) s.carved fs)
    (hlocked : locked fs = false)
    (howed : (fs.map Frame.owed).sum = ((s.stack w).map Frame.owed).sum) :
    Sound cfg ({ s with globalImLock := none }.goto w fs) L := by
  refine h.control hhands hshape ?_ (fun _ _ => rfl) (by rw [howed]; rfl)
  refine h.lock.unlock w hheld (fun u hu => ?_) ?_
  · rw [Function.update_of_ne hu]
  · rw [Function.update_self, hlocked]

/-! ### Blocks that move -/

omit [DecidableEq W] [Fintype W] in
theorem place_update {place : ℕ → Option (Key W ⊕ Hand W)} {a : ℕ} {e x : Option (Key W ⊕ Hand W)}
    (hold : place a ≠ x) (he : e ≠ x) (c : ℕ) : Function.update place a e c = x ↔ place c = x := by
  rw [Function.update_apply]
  split_ifs with hc
  · exact iff_of_false he (hc ▸ hold)
  · rfl

omit [DecidableEq W] in
/-- A block of a chunk that the program does not hold is not at the address
of one it does. -/
theorem live_addr_ne (h : Sound cfg s L) {a : ℕ} {k : Bucket} (ha : s.carved a = some k)
    (hplace : L.place a ≠ some (.inr none)) : ∀ c ∈ s.live, c.addr ≠ a := by
  rintro c hc rfl
  by_cases hs : c.size ≤ threshold
  · exact hplace ((h.holdings.mem_iff _).mpr ⟨c, hc, hs, rfl⟩)
  · obtain ⟨d, hd, hle, hin⟩ := h.layout.inChunk _ _ ha
    have hpos := bucketToSize_pos k
    rcases (h.layout.large c hc (not_le.mp hs)).2 d hd with hap | hap <;> omega

omit [DecidableEq W] in
/-- A range the system hands out is not at the address of a block the program
holds. -/
theorem live_addr_ne_of_fresh (h : Sound cfg s L) {p n : ℕ} (hn : threshold < n)
    (hfresh : s.Fresh p n) : ∀ c ∈ s.live, c.addr ≠ p := by
  obtain ⟨-, hchunks, hlarge⟩ := hfresh
  rintro c hc rfl
  by_cases hs : c.size ≤ threshold
  · obtain ⟨k, hk⟩ := exists_sizeToBucket cfg hs
    have hcarved := (h.holdings.bucket c hc hs).trans hk
    obtain ⟨d, hd, hle, hin⟩ := h.layout.inChunk _ _ hcarved
    have hpos := bucketToSize_pos k
    rcases hchunks d hd with hap | hap <;> omega
  · rcases hlarge c hc (not_le.mp hs) with hap | hap <;> omega

omit [DecidableEq W] in
/-- The block in front of a worker's list. -/
theorem place_head (h : Sound cfg s L) {k : Key W} {a : ℕ} {l : List ℕ}
    (hl : L.stack k = a :: l) : L.place a = some (.inl k) :=
  (h.books.ledger.mem_iff k a).mp (hl ▸ List.mem_cons_self)

omit [DecidableEq W] in
/-- A block in the hands of a call. -/
theorem place_hand (h : Sound cfg s L) {p : ℕ} (hp : p ∈ hands (s.stack w)) :
    L.place p = some (.inr (some w)) :=
  (h.hand w p).mpr hp

theorem books_take (h : Sound cfg s L) {b : Bucket} {l : List ℕ}
    (hl : L.stack (some w, b) = (s.imDescriptor w b).freeList :: l) (e : Hand W) :
    Books cfg (s.take w b).mem (s.take w b).descriptor s.carved
      (L.pop (some w, b) (s.imDescriptor w b).freeList l e) := by
  rw [take, descriptor_setImDescriptor]
  exact h.books.pop hl e

/-- The lists after one of worker `w` has lost its head are no longer. -/
theorem length_pop (h : Sound cfg s L) {k : Key W} {a : ℕ} {l : List ℕ} (hl : L.stack k = a :: l)
    (e : Hand W) (b : Bucket) :
    ((L.pop k a l e).stack (some w, b)).length ≤ cfg.allocBatchSize := by
  have hle := h.length_le w b
  simp only [Ledger.pop, Function.update_apply]
  split_ifs with hk
  · rw [hk, hl, List.length_cons] at hle
    omega
  · exact hle

/-- **From a list of worker `w` to the program.** -/
theorem toProgram (h : Sound cfg s L) {b : Bucket} {r : ℕ} {l : List ℕ} (info : W → Stats)
    (hl : L.stack (some w, b) = (s.imDescriptor w b).freeList :: l)
    (hr : sizeToBucket cfg r = some b) (hhands : hands (s.stack w) = [])
    (hunlocked : locked (s.stack w) = false) (hinfo : ∀ u, u ≠ w → info u = s.imInfo u)
    (hnet : ((info w).used, (info w).nmalloc) = s.net w + ((r : CInt), 1)) :
    Sound cfg
      ({ s.take w b with
        live := ⟨(s.imDescriptor w b).freeList, r⟩ :: s.live, imInfo := info }.goto w [])
      (L.pop (some w, b) (s.imDescriptor w b).freeList l none) := by
  have hplace := h.place_head hl
  have hcarved := h.books.bucket _ _ hplace
  have hsmall : r ≤ threshold := (le_of_sizeToBucket hr).trans (bucketToSize_le_threshold b)
  refine h.update w (h.books_take hl none)
    (h.layout.cons_small (b := ⟨(s.imDescriptor w b).freeList, r⟩) hsmall rfl rfl rfl rfl rfl rfl)
    (h.holdings.cons hr hcarved (h.live_addr_ne hcarved (by simp [hplace])))
    (fun u hu => Function.update_of_ne hu ..)
    (fun u hu c => L.stack_pop_of_ne (by simp [hu]) ..) (fun _ _ => id)
    (fun u _ => place_update (by simp [hplace]) (by simp)) (fun a => ?_) ?_ ?_
    (h.length_pop hl none) (h.lock_same (show locked [] = _ from hunlocked.symm)) hinfo ?_
  · rw [goto_stack_self]
    refine (place_update (by simp [hplace]) (by simp) a).trans ((h.hand w a).trans ?_)
    rw [hhands]
    rfl
  · rw [goto_stack_self]
    exact List.nodup_nil
  · rw [goto_stack_self]
    exact .idle
  · show (((info w).used, (info w).nmalloc) - ((Function.update s.stack w [] w).map _).sum) +
      s.globalNet - (List.map _ (⟨_, r⟩ :: s.live)).sum = _
    rw [hnet, Function.update_self, List.map_cons, List.sum_cons, List.map_nil, List.sum_nil]
    show s.net w + ((r : CInt), (1 : CInt)) - 0 + s.globalNet - (((r : CInt), (1 : CInt)) + s.outstanding) = _
    ring

/-- **From a list of worker `w` to the hands of its batch.** -/
theorem toHand (h : Sound cfg s L) {b : Bucket} {l : List ℕ} {fs : List Frame}
    (hl : L.stack (some w, b) = (s.imDescriptor w b).freeList :: l)
    (hhands : hands fs = (s.imDescriptor w b).freeList :: hands (s.stack w))
    (hshape : Shape cfg (fun c => ((L.pop (some w, b) (s.imDescriptor w b).freeList l
      (some w)).stack (some w, c)).length) s.carved fs)
    (hlock : locked fs = locked (s.stack w))
    (howed : (fs.map Frame.owed).sum = ((s.stack w).map Frame.owed).sum) :
    Sound cfg ((s.take w b).goto w fs)
      (L.pop (some w, b) (s.imDescriptor w b).freeList l (some w)) := by
  have hplace := h.place_head hl
  have hnot : (s.imDescriptor w b).freeList ∉ hands (s.stack w) := fun hmem => by
    simp [h.place_hand hmem] at hplace
  refine h.update w (h.books_take hl (some w)) (h.layout.same rfl rfl rfl rfl rfl rfl)
    (h.holdings.same (fun _ _ => id) (place_update (by simp [hplace]) (by simp)))
    (fun u hu => Function.update_of_ne hu ..)
    (fun u hu c => Function.update_of_ne (by simp [hu]) ..) (fun _ _ => id)
    (fun u hu => place_update (by simp [hplace]) (by simpa using hu.symm)) (fun a => ?_) ?_ ?_
    (h.length_pop hl (some w)) (h.lock_same hlock) (fun _ _ => rfl) ?_
  · rw [goto_stack_self, hhands, List.mem_cons]
    simp only [Ledger.pop, Function.update_apply]
    split_ifs with ha
    · exact iff_of_true rfl (.inl ha)
    · rw [h.hand w a]
      exact ⟨.inr, fun hc => hc.resolve_left ha⟩
  · rw [goto_stack_self, hhands]
    exact List.nodup_cons.mpr ⟨hnot, h.handNodup w⟩
  · rw [goto_stack_self]
    exact hshape
  · have hn : ((s.take w b).goto w fs).net w = s.net w := by
      rw [State.net, goto_stack_self, howed]
      rfl
    rw [hn]
    rfl

/-- The lists after one of worker `w` has got a block still fit. -/
theorem length_push (h : Sound cfg s L) {b : Bucket} (p : ℕ)
    (hcount : 0 < (s.imDescriptor w b).count) (c : Bucket) :
    ((L.push (some w, b) p).stack (some w, c)).length ≤ cfg.allocBatchSize := by
  have hle := h.length_le w c
  have hc : (s.imDescriptor w b).count + (L.stack (some w, b)).length = cfg.allocBatchSize :=
    h.books.count (some w, b)
  simp only [Ledger.push, Function.update_apply]
  split_ifs with hk
  · rw [List.length_cons]
    omega
  · exact hle

/-- **From the hands of a call of worker `w` to a list of its own.** -/
theorem fromHand (h : Sound cfg s L) {b : Bucket} {p : ℕ} {fs : List Frame}
    (hcount : 0 < (s.imDescriptor w b).count) (hp : s.carved p = some b)
    (hhands : hands (s.stack w) = p :: hands fs)
    (hshape : Shape cfg (fun c => ((L.push (some w, b) p).stack (some w, c)).length) s.carved fs)
    (hlock : locked fs = locked (s.stack w))
    (howed : (fs.map Frame.owed).sum = ((s.stack w).map Frame.owed).sum) :
    Sound cfg ((s.put w b p).goto w fs) (L.push (some w, b) p) := by
  have hplace : L.place p = some (.inr (some w)) :=
    h.place_hand (by rw [hhands]; exact List.mem_cons_self)
  have hnodup := h.handNodup w
  rw [hhands, List.nodup_cons] at hnodup
  have hbooks : Books cfg (s.put w b p).mem (s.put w b p).descriptor s.carved
      (L.push (some w, b) p) := by
    rw [put, descriptor_setImDescriptor]
    exact h.books.push (k := (some w, b)) (by simp [hplace]) hp (h.layout.pos hp)
  refine h.update w hbooks (h.layout.same rfl rfl rfl rfl rfl rfl)
    (h.holdings.same (fun _ _ => id) (place_update (by simp [hplace]) (by simp)))
    (fun u hu => Function.update_of_ne hu ..)
    (fun u hu c => Function.update_of_ne (by simp [hu]) ..) (fun _ _ => id)
    (fun u hu => place_update (by simpa [hplace] using hu.symm) (by simp)) (fun a => ?_) ?_ ?_
    (h.length_push p hcount) (h.lock_same hlock) (fun _ _ => rfl) ?_
  · rw [goto_stack_self]
    have ha := h.hand w a
    rw [hhands, List.mem_cons] at ha
    simp only [Ledger.push, Function.update_apply]
    split_ifs with hap
    · exact iff_of_false (fun he => absurd (Option.some.inj he) Sum.inl_ne_inr) (hap ▸ hnodup.1)
    · rw [ha]
      exact ⟨fun hc => hc.resolve_left hap, .inr⟩
  · rw [goto_stack_self]
    exact hnodup.2
  · rw [goto_stack_self]
    exact hshape
  · have hn : ((s.put w b p).goto w fs).net w = s.net w := by
      rw [State.net, goto_stack_self, howed]
      rfl
    rw [hn]
    rfl

omit [DecidableEq W] in
/-- A small block the program holds. -/
theorem place_live (h : Sound cfg s L) {c : Block} (hc : c ∈ s.live) {b : Bucket}
    (hb : sizeToBucket cfg c.size = some b) :
    L.place c.addr = some (.inr none) ∧ s.carved c.addr = some b := by
  have hs : c.size ≤ threshold := (le_of_sizeToBucket hb).trans (bucketToSize_le_threshold b)
  exact ⟨(h.holdings.mem_iff _).mpr ⟨c, hc, hs, rfl⟩, (h.holdings.bucket c hc hs).trans hb⟩

omit [DecidableEq W] [Fintype W] in
theorem outstanding_release (s : State W) {c : Block} (hc : c ∈ s.live) :
    (s.release c).outstanding = s.outstanding - ((c.size : CInt), 1) := by
  have := ((List.perm_cons_erase hc).map fun b => ((b.size : CInt), (1 : CInt))).sum_eq
  rw [List.map_cons, List.sum_cons] at this
  exact (sub_eq_of_eq_add' this).symm

/-- **From the program to the hands of a call.** -/
theorem fromProgram (h : Sound cfg s L) {c : Block} {b : Bucket} (hc : c ∈ s.live)
    (hb : sizeToBucket cfg c.size = some b) (hw : s.stack w = []) :
    Sound cfg (((s.release c).account w (-c.size) (-1)).goto w [.free c.addr c.size b 0])
      (L.move c.addr (some (some w))) := by
  obtain ⟨hplace, hcarved⟩ := h.place_live hc hb
  refine h.update w (h.books.move (by simp [hplace]) (by simp [hcarved]) (some w))
    ((h.layout.release c).same rfl rfl rfl rfl rfl rfl)
    (h.holdings.erase hc (by simp))
    (fun u hu => Function.update_of_ne hu ..) (fun _ _ _ => rfl) (fun _ _ => id)
    (fun u hu => place_update (by simp [hplace]) (by simpa using hu.symm)) (fun a => ?_) ?_ ?_
    (h.length_le w) (h.lock_same (by simp [hw, locked, Frame.locked]))
    (fun u hu => Function.update_of_ne hu ..) ?_
  · rw [goto_stack_self]
    have ha := h.hand w a
    simp only [hw, hands, List.flatMap_nil, List.not_mem_nil, iff_false] at ha
    simp only [Ledger.move, Function.update_apply, hands, List.flatMap_cons, Frame.hand,
      List.flatMap_nil, List.append_nil, List.mem_singleton]
    split_ifs with hac
    · exact iff_of_true rfl hac
    · exact iff_of_false ha hac
  · rw [goto_stack_self]
    exact List.nodup_singleton _
  · rw [goto_stack_self]
    exact .free hb hcarved
  · have ho := outstanding_release s hc
    show (((s.release c).account w (-c.size) (-1)).goto w [.free c.addr c.size b 0]).net w +
      s.globalNet - (s.release c).outstanding = _
    have hn : (((s.release c).account w (-c.size) (-1)).goto w [.free c.addr c.size b 0]).net w
        = s.net w - ((c.size : CInt), 1) := by
      rw [State.net, State.net, goto_stack_self, hw]
      show ((Function.update s.imInfo w _ w).used, (Function.update s.imInfo w _ w).nmalloc) - _ = _
      rw [Function.update_self]
      simp only [Stats.add, List.map_cons, List.map_nil, List.sum_cons, List.sum_nil, Frame.owed]
      show ((s.imInfo w).used + -(c.size : CInt), (s.imInfo w).nmalloc + -1) - (0 + 0) = _
      simp [sub_eq_add_neg]
    rw [hn, ho]
    ring

/-- **From the program to a list of worker `w`.** -/
theorem freeFast (h : Sound cfg s L) {c : Block} {b : Bucket} (hc : c ∈ s.live)
    (hb : sizeToBucket cfg c.size = some b) (hw : s.stack w = []) (hcount : 0 < (s.imDescriptor w b).count) :
    Sound cfg (((s.release c).put w b c.addr).account w (-c.size) (-1))
      (L.push (some w, b) c.addr) := by
  obtain ⟨hplace, hcarved⟩ := h.place_live hc hb
  have hbooks : Books cfg ((s.release c).put w b c.addr).mem
      ((s.release c).put w b c.addr).descriptor s.carved (L.push (some w, b) c.addr) := by
    rw [put, descriptor_setImDescriptor]
    exact h.books.push (k := (some w, b)) (by simp [hplace]) hcarved (h.layout.pos hcarved)
  refine h.update w hbooks ((h.layout.release c).same rfl rfl rfl rfl rfl rfl)
    (h.holdings.erase hc (by simp)) (fun _ _ => rfl)
    (fun u hu c => Function.update_of_ne (by simp [hu]) ..) (fun _ _ => id)
    (fun u hu => place_update (by simp [hplace]) (by simp)) (fun a => ?_) (h.handNodup w) ?_
    (h.length_push c.addr hcount) h.lock (fun u hu => Function.update_of_ne hu ..) ?_
  · exact (place_update (by simp [hplace]) (by simp) a).trans (h.hand w a)
  · show Shape cfg _ s.carved (s.stack w)
    rw [hw]
    exact .idle
  · have ho := outstanding_release s hc
    have hn : (((s.release c).put w b c.addr).account w (-c.size) (-1)).net w
        = s.net w - ((c.size : CInt), 1) := by
      show ((Function.update s.imInfo w _ w).used, (Function.update s.imInfo w _ w).nmalloc) -
        ((s.stack w).map Frame.owed).sum = _
      rw [Function.update_self, hw]
      show ((s.imInfo w).used + -(c.size : CInt), (s.imInfo w).nmalloc + -1) - 0 = _
      simp [State.net, hw, sub_eq_add_neg]
    show (((s.release c).put w b c.addr).account w (-c.size) (-1)).net w +
      s.globalNet - (s.release c).outstanding = _
    rw [hn, ho]
    ring

/-- **A large block for the program.** -/
theorem mallocLarge (h : Sound cfg s L) {r p : ℕ} (hr : threshold < r) (hfresh : s.Fresh p r)
    (hw : s.stack w = []) :
    Sound cfg ({ s.account w r 1 with live := ⟨p, r⟩ :: s.live }.goto w []) L := by
  refine h.update w h.books (h.layout.cons_large hfresh rfl rfl rfl rfl rfl rfl)
    (h.holdings.cons_large hr (h.live_addr_ne_of_fresh hr hfresh))
    (fun u hu => Function.update_of_ne hu ..) (fun _ _ _ => rfl) (fun _ _ => id)
    (fun _ _ _ => Iff.rfl) (fun a => ?_) ?_ ?_ (h.length_le w)
    (h.lock_same (show locked [] = _ by rw [hw])) (fun u hu => Function.update_of_ne hu ..) ?_
  · rw [goto_stack_self, ← hw]
    exact h.hand w a
  · rw [goto_stack_self]
    exact List.nodup_nil
  · rw [goto_stack_self]
    exact .idle
  · show ((Function.update s.imInfo w _ w).used, (Function.update s.imInfo w _ w).nmalloc) -
      ((Function.update s.stack w [] w).map Frame.owed).sum + s.globalNet -
        (List.map _ (⟨p, r⟩ :: s.live)).sum = _
    rw [Function.update_self, Function.update_self, List.map_cons, List.sum_cons]
    show ((s.imInfo w).used + (r : CInt), (s.imInfo w).nmalloc + 1) - 0 + s.globalNet -
      (((r : CInt), (1 : CInt)) + s.outstanding) = _
    rw [State.net, hw]
    show _ = ((s.imInfo w).used, (s.imInfo w).nmalloc) - 0 + s.globalNet - s.outstanding
    rw [← Prod.mk_add_mk]
    ring

/-- **A large block goes back to the system.** -/
theorem freeLarge (h : Sound cfg s L) {c : Block} (hc : c ∈ s.live) (hr : threshold < c.size)
    (hw : s.stack w = []) :
    Sound cfg (((s.release c).account w (-c.size) (-1)).goto w []) L := by
  refine h.update w h.books ((h.layout.release c).same rfl rfl rfl rfl rfl rfl)
    (h.holdings.erase_large hr)
    (fun u hu => Function.update_of_ne hu ..) (fun _ _ _ => rfl) (fun _ _ => id)
    (fun _ _ _ => Iff.rfl) (fun a => ?_) ?_ ?_ (h.length_le w)
    (h.lock_same (show locked [] = _ by rw [hw])) (fun u hu => Function.update_of_ne hu ..) ?_
  · rw [goto_stack_self, ← hw]
    exact h.hand w a
  · rw [goto_stack_self]
    exact List.nodup_nil
  · rw [goto_stack_self]
    exact .idle
  · have ho := outstanding_release s hc
    show ((Function.update s.imInfo w _ w).used, (Function.update s.imInfo w _ w).nmalloc) -
      ((Function.update s.stack w [] w).map Frame.owed).sum + s.globalNet -
        (s.release c).outstanding = _
    rw [Function.update_self, Function.update_self, ho]
    show ((s.imInfo w).used + -(c.size : CInt), (s.imInfo w).nmalloc + -1) - 0 + s.globalNet -
      (s.outstanding - ((c.size : CInt), (1 : CInt))) = _
    rw [State.net, hw]
    show _ = ((s.imInfo w).used, (s.imInfo w).nmalloc) - 0 + s.globalNet - s.outstanding
    rw [← Prod.mk_add_mk, show (-(c.size : CInt), (-1 : CInt)) = -((c.size : CInt), (1 : CInt)) from rfl]
    ring

omit [DecidableEq W] in
/-- The program writes into a block it holds. -/
theorem write (h : Sound cfg s L) {c : Block} (hc : c ∈ s.live) (contents : ℕ → ℕ) :
    Sound cfg { s with
      mem := fun a => if c.addr ≤ a ∧ a < c.addr + c.size then contents a else s.mem a } L := by
  refine { h with
    books := h.books.write fun k a ha => if_neg ?_
    layout := h.layout.same rfl rfl rfl rfl rfl rfl }
  -- the first word of a free block is in no block of the program
  rintro ⟨hle, hlt⟩
  have hplace := (h.books.ledger.mem_iff k a).mp ha
  have hcarved := h.books.mem_bucket ha
  have hpos := bucketToSize_pos k.2
  by_cases hs : c.size ≤ threshold
  · obtain ⟨b, hb⟩ := exists_sizeToBucket cfg hs
    obtain ⟨hlive, hc'⟩ := h.place_live hc hb
    have hsize := le_of_sizeToBucket hb
    have hne : a ≠ c.addr := by
      rintro rfl
      simp [hplace] at hlive
    rcases h.layout.blocks a c.addr _ _ hcarved hc' hne with hap | hap <;> omega
  · obtain ⟨d, hd, hdle, hin⟩ := h.layout.inChunk _ _ hcarved
    rcases (h.layout.large c hc (not_le.mp hs)).2 d hd with hap | hap <;> omega

/-! ### The shared lists and the pool -/

/-- **From a shared list to the hands of a batch.** -/
theorem popGlobal (h : Sound cfg s L) {b : Bucket} {n : ℕ} {l : List ℕ} {fs : List Frame}
    (hl : L.stack (none, b) = (s.globalImDescriptor b).freeList :: l)
    (hhands : hands fs = (s.globalImDescriptor b).freeList :: hands (s.stack w))
    (hshape : Shape cfg (fun c => (L.stack (some w, c)).length) s.carved fs)
    (hlock : locked fs = locked (s.stack w))
    (howed : (fs.map Frame.owed).sum = ((s.stack w).map Frame.owed).sum + ((n : CInt), 1)) :
    Sound cfg
      ({ s with
        globalImInfo := s.globalImInfo.add n 1
        globalImDescriptor := Function.update s.globalImDescriptor b
          ⟨s.mem (s.globalImDescriptor b).freeList, (s.globalImDescriptor b).count + 1⟩ }.goto w fs)
      (L.pop (none, b) (s.globalImDescriptor b).freeList l (some w)) := by
  have hplace := h.place_head hl
  have hnot : (s.globalImDescriptor b).freeList ∉ hands (s.stack w) := fun hmem => by
    simp [h.place_hand hmem] at hplace
  have hbooks := h.books.pop hl (some w)
  have hstack : ∀ u c, (L.pop (none, b) (s.globalImDescriptor b).freeList l (some w)).stack
      (some u, c) = L.stack (some u, c) := fun u c => L.stack_pop_of_ne (by simp) ..
  refine h.update w ?_ (h.layout.same rfl rfl rfl rfl rfl rfl)
    (h.holdings.same (fun _ _ => id) (place_update (by simp [hplace]) (by simp)))
    (fun u hu => Function.update_of_ne hu ..) (fun u _ c => hstack u c) (fun _ _ => id)
    (fun u hu => place_update (by simp [hplace]) (by simpa using hu.symm)) (fun a => ?_) ?_ ?_
    (fun c => by rw [hstack]; exact h.length_le w c) (h.lock_same hlock) (fun _ _ => rfl) ?_
  · show Books cfg s.mem
      { s with globalImDescriptor := Function.update s.globalImDescriptor b _ }.descriptor s.carved _
    rw [descriptor_global]
    exact hbooks
  · rw [goto_stack_self, hhands, List.mem_cons]
    simp only [Ledger.pop, Function.update_apply]
    split_ifs with ha
    · exact iff_of_true rfl (.inl ha)
    · rw [h.hand w a]
      exact ⟨.inr, fun hc => hc.resolve_left ha⟩
  · rw [goto_stack_self, hhands]
    exact List.nodup_cons.mpr ⟨hnot, h.handNodup w⟩
  · rw [goto_stack_self]
    exact hshape.mono (fun c => congrArg _ (hstack w c)) (fun _ _ => id)
  · rw [State.net, goto_stack_self, howed]
    show _ - _ + (s.globalImInfo.used + (n : CInt), s.globalImInfo.nmalloc + 1) - s.outstanding = _
    rw [← Prod.mk_add_mk]
    show ((s.imInfo w).used, (s.imInfo w).nmalloc) - _ + _ - s.outstanding =
      ((s.imInfo w).used, (s.imInfo w).nmalloc) - _ + s.globalNet - s.outstanding
    rw [State.globalNet]
    ring

/-- **From the pool to the hands of a batch.** The state `t` is the one the
block is cut in, with a new chunk where one was needed. -/
theorem carve (h : Sound cfg s L) {t : State W} {b : Bucket} {fs : List Frame} (ht : Layout t)
    (hroom : t.globalPoolBegin + bucketToSize b ≤ t.globalPoolEnd) (hmem : t.mem = s.mem)
    (hdesc : t.descriptor = s.descriptor) (hcarved : t.carved = s.carved) (hlive : t.live = s.live)
    (hstack : t.stack = s.stack) (hinfo : t.imInfo = s.imInfo)
    (hlk : t.globalImLock = s.globalImLock)
    (hglobal : t.globalImInfo = s.globalImInfo.add (bucketToSize b) 1)
    (hhands : hands fs = t.globalPoolBegin :: hands (s.stack w))
    (hshape : Shape cfg (fun c => (L.stack (some w, c)).length)
      (Function.update s.carved t.globalPoolBegin (some b)) fs)
    (hlock : locked fs = locked (s.stack w))
    (howed : (fs.map Frame.owed).sum = ((s.stack w).map Frame.owed).sum + ((bucketToSize b : CInt), 1)) :
    Sound cfg ((t.carve (bucketToSize b) b).1.goto w fs)
      (L.move t.globalPoolBegin (some (some w))) := by
  have hnone : s.carved t.globalPoolBegin = none :=
    hcarved ▸ ht.carved_begin (bucketToSize_pos b) hroom
  have hplace : L.place t.globalPoolBegin = none := (h.books.carved_iff _).mpr hnone
  have hnot : t.globalPoolBegin ∉ hands (s.stack w) := fun hm => by
    simp [h.place_hand hm] at hplace
  have hmono : ∀ a k, s.carved a = some k →
      Function.update s.carved t.globalPoolBegin (some b) a = some k := by
    intro a k ha
    rwa [Function.update_of_ne (by rintro rfl; simp [hnone] at ha)]
  have hself : ((t.carve (bucketToSize b) b).1.goto w fs).stack w = fs := goto_stack_self ..
  refine h.update w ?_ (ht.carve hroom |>.same rfl rfl rfl rfl rfl rfl) ?_ (fun u hu => ?_)
    (fun _ _ _ => rfl) ?_ (fun u hu => place_update (by simp [hplace]) (by simpa using hu.symm))
    (fun a => ?_) ?_ ?_ (h.length_le w) ?_ (fun u _ => congrFun hinfo u) ?_
  · have hbooks := h.books.carve hnone b (some w)
    show Books cfg t.mem t.descriptor (Function.update t.carved _ _) _
    rw [hmem, hdesc, hcarved]
    exact hbooks
  · show Holdings cfg t.live (Function.update t.carved _ _) _
    rw [hlive, hcarved]
    exact h.holdings.same hmono (place_update (by simp [hplace]) (by simp))
  · show Function.update t.stack w fs u = _
    rw [Function.update_of_ne hu, hstack]
  · show ∀ a k, _ → Function.update t.carved _ _ a = some k
    rw [hcarved]
    exact hmono
  · rw [hself, hhands, List.mem_cons]
    simp only [Ledger.move, Function.update_apply]
    split_ifs with ha
    · exact iff_of_true rfl (.inl ha)
    · rw [h.hand w a]
      exact ⟨.inr, fun hc => hc.resolve_left ha⟩
  · rw [hself, hhands]
    exact List.nodup_cons.mpr ⟨hnot, h.handNodup w⟩
  · rw [hself]
    show Shape cfg _ (Function.update t.carved _ _) fs
    rw [hcarved]
    exact hshape
  · show Mutex.Exclusive t.globalImLock fun u => locked (Function.update t.stack w fs u)
    rw [hlk, hstack]
    exact h.lock_same hlock
  · rw [State.net, hself, howed]
    show ((t.imInfo w).used, (t.imInfo w).nmalloc) - _ + (t.globalImInfo.used, t.globalImInfo.nmalloc) -
      (t.live.map _).sum = _
    rw [hinfo, hglobal, hlive]
    show _ - _ + (s.globalImInfo.used + (bucketToSize b : CInt), s.globalImInfo.nmalloc + 1) -
      s.outstanding = _
    rw [← Prod.mk_add_mk, State.net, State.globalNet]
    ring

/-- **From the hands of a batch to a shared list.** -/
theorem pushGlobal (h : Sound cfg s L) {b : Bucket} {p n : ℕ} {fs : List Frame}
    (hp : s.carved p = some b) (hhands : hands (s.stack w) = p :: hands fs)
    (hshape : Shape cfg (fun c => (L.stack (some w, c)).length) s.carved fs)
    (hlock : locked fs = locked (s.stack w))
    (howed : (fs.map Frame.owed).sum + ((n : CInt), 1) = ((s.stack w).map Frame.owed).sum) :
    Sound cfg ((s.globalImFree p n b).goto w fs) (L.push (none, b) p) := by
  have hplace : L.place p = some (.inr (some w)) :=
    h.place_hand (by rw [hhands]; exact List.mem_cons_self)
  have hnodup := h.handNodup w
  rw [hhands, List.nodup_cons] at hnodup
  have hbooks := h.books.push (k := (none, b)) (by simp [hplace]) hp (h.layout.pos hp)
  have hstack : ∀ u c, (L.push (none, b) p).stack (some u, c) = L.stack (some u, c) :=
    fun u c => L.stack_push_of_ne (by simp) _
  refine h.update w ?_ (h.layout.same rfl rfl rfl rfl rfl rfl)
    (h.holdings.same (fun _ _ => id) (place_update (by simp [hplace]) (by simp)))
    (fun u hu => Function.update_of_ne hu ..) (fun u _ c => hstack u c) (fun _ _ => id)
    (fun u hu => place_update (by simpa [hplace] using hu.symm) (by simp)) (fun a => ?_) ?_ ?_
    (fun c => by rw [hstack]; exact h.length_le w c) (h.lock_same hlock) (fun _ _ => rfl) ?_
  · show Books cfg (Function.update s.mem p _)
      { s with globalImDescriptor := Function.update s.globalImDescriptor b _ }.descriptor s.carved _
    rw [descriptor_global]
    exact hbooks
  · rw [goto_stack_self]
    have ha := h.hand w a
    rw [hhands, List.mem_cons] at ha
    simp only [Ledger.push, Function.update_apply]
    split_ifs with hap
    · exact iff_of_false (fun he => absurd (Option.some.inj he) Sum.inl_ne_inr) (hap ▸ hnodup.1)
    · rw [ha]
      exact ⟨fun hc => hc.resolve_left hap, .inr⟩
  · rw [goto_stack_self]
    exact hnodup.2
  · rw [goto_stack_self]
    exact hshape.mono (fun c => congrArg _ (hstack w c)) (fun _ _ => id)
  · rw [State.net, State.net, goto_stack_self, ← howed]
    show ((s.imInfo w).used, (s.imInfo w).nmalloc) - _ +
      (s.globalImInfo.used + -(n : CInt), s.globalImInfo.nmalloc + -1) - s.outstanding = _
    rw [← Prod.mk_add_mk, show (-(n : CInt), (-1 : CInt)) = -((n : CInt), (1 : CInt)) from rfl, State.globalNet]
    ring

/-! ### One step for each shape -/

omit [DecidableEq W] in
/-- The count of a worker's descriptor is what its list leaves of
`alloc_batch_size`. -/
theorem count_eq (h : Sound cfg s L) (b : Bucket) :
    (s.imDescriptor w b).count = cfg.allocBatchSize - (L.stack (some w, b)).length :=
  eq_sub_of_add_eq (h.books.count (some w, b))

omit [DecidableEq W] in
/-- A worker's list that is not empty starts at its descriptor. -/
theorem exists_head (h : Sound cfg s L) {b : Bucket}
    (hlen : 0 < (L.stack (some w, b)).length) :
    (s.imDescriptor w b).freeList ≠ 0 ∧
      ∃ l, L.stack (some w, b) = (s.imDescriptor w b).freeList :: l := by
  have hne : (s.imDescriptor w b).freeList ≠ 0 := fun hnil => by
    rw [(h.books.nil_iff (k := (some w, b))).mp hnil] at hlen
    cases hlen
  exact ⟨hne, h.books.head (k := (some w, b)) hne⟩

/-- The end of `Cilk_internal_malloc`, called by the program. -/
theorem mallocDone (h : Sound cfg s L) {r m : ℕ} {b : Bucket} {l : List ℕ}
    (hw : s.stack w = [.malloc r (bucketToSize b) b m]) (hr : sizeToBucket cfg r = some b)
    (hl : L.stack (some w, b) = (s.imDescriptor w b).freeList :: l)
    (hst : (s.take w b).mallocReturn w (s.imDescriptor w b).freeList r [] = some s') :
    (∃ L', Sound cfg s' L') ∧ s'.stack w = [] := by
  cases hst
  exact ⟨⟨_, h.toProgram s.imInfo hl hr (by rw [hw]; rfl) (by rw [hw]; rfl)
    (fun _ _ => rfl) (by simp [State.net, hw, Frame.owed])⟩, goto_stack_self ..⟩

/-- `global_im_alloc` inside a batch. -/
theorem globalImAlloc (h : Sound cfg s L) {r i p : ℕ} {b : Bucket}
    (hw : s.stack w = [.allocateBatch (bucketToSize b) b i, .malloc r (bucketToSize b) b 1])
    (hr : sizeToBucket cfg r = some b) (hlen : (L.stack (some w, b)).length = i)
    (hi : i < cfg.half) {t : State W × ℕ}
    (ht : s.globalImAlloc (bucketToSize b) b p = some t) :
    ∃ L', Sound cfg (t.1.goto w [.allocateBatchGot (bucketToSize b) b i t.2,
      .malloc r (bucketToSize b) b 1]) L' := by
  have howed : ∀ a, ((([.allocateBatchGot (bucketToSize b) b i a, .malloc r (bucketToSize b) b 1] :
      List Frame)).map Frame.owed).sum =
      ((s.stack w).map Frame.owed).sum + ((bucketToSize b : CInt), 1) := by
    intro a
    simp [hw, Frame.owed, add_comm]
  have hself : ∀ a, Function.update s.carved a (some b) a = some b :=
    fun a => Function.update_self ..
  simp only [State.globalImAlloc] at ht
  split_ifs at ht with hlist hroom hfresh
  · cases ht
    obtain ⟨l, hl⟩ := h.books.head (k := (none, b)) hlist
    exact ⟨_, h.popGlobal hl (by rw [hw]; rfl)
      (.allocateGot hr hlen hi (h.books.mem_bucket (hl ▸ List.mem_cons_self))) (by rw [hw]; rfl)
      (howed _)⟩
  · cases ht
    -- what is left of the pool is too short: a new chunk
    have hchunk : bucketToSize b ≤ chunk := (bucketToSize_le_threshold b).trans (by decide)
    exact ⟨_, h.carve (h.layout.extend hfresh |>.same rfl rfl rfl rfl rfl rfl)
      (Nat.add_le_add_left hchunk p) rfl rfl rfl rfl rfl rfl rfl rfl (by rw [hw]; rfl)
      (.allocateGot hr hlen hi (hself _)) (by rw [hw]; rfl) (howed _)⟩
  · cases ht
    exact ⟨_, h.carve (h.layout.same rfl rfl rfl rfl rfl rfl) (not_lt.mp hroom) rfl rfl rfl rfl rfl
      rfl rfl rfl (by rw [hw]; rfl) (.allocateGot hr hlen hi (hself _)) (by rw [hw]; rfl) (howed _)⟩

omit [Fintype W] in
/-- The call of `Cilk_internal_malloc` for a small block. -/
theorem callMalloc_eq {r p : ℕ} {b : Bucket} {fs : List Frame} (hr : sizeToBucket cfg r = some b) :
    s.callMalloc cfg w r p fs =
      some ((s.account w r 1).goto w (.malloc r (bucketToSize b) b 0 :: fs)) := by
  have hsmall : r ≤ threshold := (le_of_sizeToBucket hr).trans (bucketToSize_le_threshold b)
  simp only [State.callMalloc, not_lt.mpr hsmall, if_false, canonicalize_eq, hr,
    Option.map_some, Option.bind_some, sizeToBucket_bucketToSize hr]

omit [Fintype W] in
/-- The call of `Cilk_internal_free` for a small block. -/
theorem callFree_eq {r p : ℕ} {b : Bucket} {fs : List Frame} (hr : sizeToBucket cfg r = some b) :
    s.callFree cfg w p r fs =
      some ((s.account w (-r) (-1)).goto w (.free p r b 0 :: fs)) := by
  have hsmall : r ≤ threshold := (le_of_sizeToBucket hr).trans (bucketToSize_le_threshold b)
  simp only [State.callFree, not_lt.mpr hsmall, if_false, hr, Option.map_some]

/-- **A step of a call keeps the invariant, and brings the call nearer to its
end.** -/
theorem advance (h : Sound cfg s L) {p : ℕ} (hst : s.advance cfg w p = some s') :
    (∃ L', Sound cfg s' L') ∧ remaining cfg (s'.stack w) < remaining cfg (s.stack w) := by
  have hhalf := cfg.half_pos
  have hhalf' := cfg.half_lt
  have hshape := h.shape w
  generalize hw : s.stack w = fs at hshape
  cases hshape with
  | idle => simp only [State.advance, hw, reduceCtorEq] at hst
  | @malloc r b hr =>
    simp only [State.advance, hw] at hst
    split_ifs at hst with hnil
    · cases hst
      refine ⟨⟨L, h.goto (by rw [hw]; rfl) (.allocateWait hr ?_) (by rw [hw]; rfl)
        (by simp [hw, Frame.owed])⟩, by simp [remaining]⟩
      exact List.length_eq_zero_iff.mpr ((h.books.nil_iff (k := (some w, b))).mp hnil)
    · obtain ⟨l, hl⟩ := h.books.head (k := (some w, b)) hnil
      obtain ⟨hsound, hnil⟩ := h.mallocDone hw hr hl hst
      exact ⟨hsound, by simp [hnil, remaining]⟩
  | @refilled r b hr hlen =>
    obtain ⟨hne, l, hl⟩ := h.exists_head (hlen ▸ hhalf)
    simp only [State.advance, hw, hne, if_false] at hst
    obtain ⟨hsound, hnil⟩ := h.mallocDone hw hr hl hst
    exact ⟨hsound, by simp [hnil, remaining]⟩
  | @allocateWait r b hr hlen =>
    simp only [State.advance, hw] at hst
    split_ifs at hst with hfree
    cases hst
    exact ⟨⟨L, h.acquire hfree (by rw [hw]; rfl) (.allocate hr hlen (Nat.zero_le _)) rfl
      (by simp [hw, Frame.owed])⟩, by simp [remaining]⟩
  | @allocate r i b hr hlen hi =>
    simp only [State.advance, hw] at hst
    split_ifs at hst with hlt
    · obtain ⟨t, ht, rfl⟩ := Option.map_eq_some_iff.mp hst
      exact ⟨h.globalImAlloc hw hr hlen hlt ht, by simp [remaining]⟩
    · cases hst
      refine ⟨⟨L, h.unlock (by rw [hw]; rfl) (by rw [hw]; rfl) (.refilled hr ?_) rfl
        (by simp [hw, Frame.owed])⟩, by simp [remaining]⟩
      exact hlen.trans (le_antisymm hi (not_lt.mp hlt))
  | @allocateGot r i q b hr hlen hi hq =>
    simp only [State.advance, hw, callFree_eq (sizeToBucket_bucketToSize hr),
      Option.some.injEq] at hst
    subst hst
    exact ⟨⟨L, h.account (by rw [hw]; rfl) (.allocateFree hr hlen hi hq) (by rw [hw]; rfl)
      (by simp [hw, Frame.owed])⟩, by simp only [goto_stack_self, remaining]; omega⟩
  | @allocateFree r i q b hr hlen hi hq =>
    -- the list holds less than half a batch, so the drain is not entered
    have hcount := h.count_eq (w := w) b
    have hpos : 0 < (s.imDescriptor w b).count := by omega
    simp only [State.advance, hw, not_le.mpr hpos, if_false, Option.some.injEq] at hst
    subst hst
    refine ⟨⟨_, h.fromHand hpos hq (by rw [hw]; rfl) (.allocate hr ?_ hi) (by rw [hw]; rfl)
      (by simp [hw, Frame.owed])⟩, by simp [remaining]⟩
    rw [Ledger.stack_push_self, List.length_cons, hlen]
  | @free r q b hr hq =>
    have hcount := h.count_eq (w := w) b
    have hle := h.length_le w b
    simp only [State.advance, hw] at hst
    split_ifs at hst with hfull
    · cases hst
      refine ⟨⟨L, h.goto (by rw [hw]; rfl) (.freeWait hr hq ?_) (by rw [hw]; rfl)
        (by simp [hw, Frame.owed])⟩, by simp [remaining]⟩
      show (L.stack (some w, b)).length = _
      omega
    · cases hst
      exact ⟨⟨_, h.fromHand (not_le.mp hfull) hq (by rw [hw]; rfl) .idle (by rw [hw]; rfl)
        (by simp [hw, Frame.owed])⟩, by simp [remaining]⟩
  | @drained r q b hr hq hlen =>
    have hcount := h.count_eq (w := w) b
    have hpos : 0 < (s.imDescriptor w b).count := by omega
    simp only [State.advance, hw, not_le.mpr hpos, if_false, Option.some.injEq] at hst
    subst hst
    exact ⟨⟨_, h.fromHand hpos hq (by rw [hw]; rfl) .idle (by rw [hw]; rfl)
      (by simp [hw, Frame.owed])⟩, by simp [remaining]⟩
  | @freeWait r q b hr hq hlen =>
    simp only [State.advance, hw] at hst
    split_ifs at hst with hfree
    cases hst
    exact ⟨⟨L, h.acquire hfree (by rw [hw]; rfl) (.freeBatch hr hq hlen (Nat.zero_le _)) rfl
      (by simp [hw, Frame.owed])⟩, by simp [remaining]⟩
  | @freeBatch r q i b hr hq hlen hi =>
    simp only [State.advance, hw] at hst
    split_ifs at hst with hlt
    · rw [callMalloc_eq hr, Option.some.injEq] at hst
      subst hst
      exact ⟨⟨L, h.account (by rw [hw]; rfl) (.freeMalloc hr hq hlen hlt) (by rw [hw]; rfl)
        (by simp [hw, Frame.owed])⟩, by simp [remaining]⟩
    · cases hst
      refine ⟨⟨L, h.unlock (by rw [hw]; rfl) (by rw [hw]; rfl) (.drained hr hq ?_) rfl
        (by simp [hw, Frame.owed])⟩, by simp [remaining]⟩
      rw [hlen, le_antisymm hi (not_lt.mp hlt)]
  | @freeMalloc r q i b hr hq hlen hi =>
    -- more than half a batch is still on the list, so the refill is not entered
    obtain ⟨hne, l, hl⟩ := h.exists_head (w := w) (b := b) (by omega)
    simp only [State.advance, hw, hne, if_false, mallocReturn, Option.some.injEq] at hst
    subst hst
    have hcarved := h.books.mem_bucket (k := (some w, b)) (hl ▸ List.mem_cons_self)
    refine ⟨⟨_, h.toHand hl (by rw [hw]; rfl) (.freeGot hr hq hcarved ?_ hi) (by rw [hw]; rfl)
      (by simp [hw, Frame.owed])⟩, by simp [remaining]⟩
    rw [hl, List.length_cons] at hlen
    rw [Ledger.stack_pop_self]
    omega
  | @freeGot r q q' i b hr hq hq' hlen hi =>
    simp only [State.advance, hw, Option.some.injEq] at hst
    subst hst
    refine ⟨⟨_, h.pushGlobal hq' (by rw [hw]; rfl) (.freeBatch hr hq ?_ hi) (by rw [hw]; rfl)
      (by simp [hw, Frame.owed, add_comm])⟩, by simp only [goto_stack_self, remaining]; omega⟩
    rw [hlen]
    omega

/-! ### The calls of the program -/

/-- `Cilk_internal_malloc`, called by the program. -/
theorem callMalloc (h : Sound cfg s L) {r p : ℕ} (hw : s.stack w = [])
    (hst : s.callMalloc cfg w r p [] = some s') : ∃ L', Sound cfg s' L' := by
  by_cases hr : threshold < r
  · simp only [State.callMalloc, gt_iff_lt, hr, if_true] at hst
    split_ifs at hst with hfresh
    cases hst
    exact ⟨L, h.mallocLarge hr hfresh hw⟩
  · obtain ⟨b, hb⟩ := exists_sizeToBucket cfg (not_lt.mp hr)
    rw [callMalloc_eq hb, Option.some.injEq] at hst
    subst hst
    exact ⟨L, h.account (by rw [hw]; rfl) (.malloc hb) (by rw [hw]; rfl)
      (by simp [hw, Frame.owed])⟩

/-- `Cilk_internal_malloc_fast`, called by the program. -/
theorem mallocFast (h : Sound cfg s L) {r p : ℕ} (hw : s.stack w = [])
    (hst : s.mallocFast cfg w r p = some s') : ∃ L', Sound cfg s' L' := by
  by_cases hr : threshold < r
  · simp only [State.mallocFast, gt_iff_lt, hr, if_true] at hst
    exact h.callMalloc hw hst
  · obtain ⟨b, hb⟩ := exists_sizeToBucket cfg (not_lt.mp hr)
    simp only [State.mallocFast, gt_iff_lt, hr, if_false, hb, Option.bind_some] at hst
    split_ifs at hst with hne
    · cases hst
      obtain ⟨l, hl⟩ := h.books.head (k := (some w, b)) hne
      refine ⟨_, h.toProgram (Function.update s.imInfo w ((s.imInfo w).add r 1)) hl hb
        (by rw [hw]; rfl) (by rw [hw]; rfl) (fun u hu => Function.update_of_ne hu ..) ?_⟩
      rw [Function.update_self, State.net, hw]
      show ((s.imInfo w).used + (r : CInt), (s.imInfo w).nmalloc + 1) = _ - 0 + _
      rw [sub_zero, Prod.mk_add_mk]
    · exact h.callMalloc hw hst

/-- `Cilk_internal_free`, called by the program. -/
theorem callFree (h : Sound cfg s L) {c : Block} (hw : s.stack w = []) (hc : c ∈ s.live)
    (hst : (s.release c).callFree cfg w c.addr c.size [] = some s') : ∃ L', Sound cfg s' L' := by
  by_cases hr : threshold < c.size
  · simp only [State.callFree, gt_iff_lt, hr, if_true, Option.some.injEq] at hst
    subst hst
    exact ⟨L, h.freeLarge hc hr hw⟩
  · obtain ⟨b, hb⟩ := exists_sizeToBucket cfg (not_lt.mp hr)
    rw [callFree_eq hb, Option.some.injEq] at hst
    subst hst
    exact ⟨_, h.fromProgram hc hb hw⟩

/-- `Cilk_internal_free_fast`, called by the program. -/
theorem callFreeFast (h : Sound cfg s L) {c : Block} (hw : s.stack w = []) (hc : c ∈ s.live)
    (hst : (s.release c).freeFast cfg w c.addr c.size = some s') : ∃ L', Sound cfg s' L' := by
  by_cases hr : threshold < c.size
  · simp only [State.freeFast, gt_iff_lt, hr, if_true] at hst
    exact h.callFree hw hc hst
  · obtain ⟨b, hb⟩ := exists_sizeToBucket cfg (not_lt.mp hr)
    simp only [State.freeFast, gt_iff_lt, hr, if_false, hb, Option.bind_some] at hst
    split_ifs at hst with hfull
    · exact h.callFree hw hc hst
    · cases hst
      exact ⟨_, h.freeFast hc hb hw (not_le.mp hfull)⟩

/-- **Every step keeps the invariant.** -/
theorem step (h : Sound cfg s L) {a : Action W} (hst : step cfg a s = some s') :
    ∃ L', Sound cfg s' L' := by
  cases a with
  | malloc w r p =>
    simp only [Allocator.step] at hst
    split_ifs at hst with hw
    exact h.callMalloc hw hst
  | mallocFast w r p =>
    simp only [Allocator.step] at hst
    split_ifs at hst with hw
    exact h.mallocFast hw hst
  | free w c =>
    simp only [Allocator.step] at hst
    split_ifs at hst with hw
    exact h.callFree hw.1 hw.2 hst
  | freeFast w c =>
    simp only [Allocator.step] at hst
    split_ifs at hst with hw
    exact h.callFreeFast hw.1 hw.2 hst
  | advance w p => exact (h.advance hst).1
  | write c contents =>
    simp only [Allocator.step] at hst
    split_ifs at hst with hc
    cases hst
    exact ⟨L, h.write hc contents⟩

omit [DecidableEq W] in
theorem initial (cfg : Config) (mem : ℕ → ℕ) :
    Sound (W := W) cfg (.initial cfg mem) ⟨fun _ => [], fun _ => none⟩ := by
  refine ⟨⟨⟨by simp, by simp⟩, ?_, ?_, by simp [State.initial], by simp⟩, ?_,
    ⟨by simp [State.initial], by simp [State.initial], List.nodup_nil⟩,
    by simp [State.initial, hands], fun _ => List.nodup_nil, fun w => .idle, by simp,
    fun w => iff_of_false nofun nofun, ?_⟩
  · rintro ⟨_ | w, b⟩ <;> rfl
  · rintro ⟨_ | w, b⟩ <;> exact add_zero _
  · constructor <;> simp [State.initial]
  · simp [State.initial, State.net, State.globalNet, State.outstanding]

/-- **The invariant holds of every reachable state.** -/
theorem reachable {mem : ℕ → ℕ} (hs : (allocator cfg mem).Reachable s) : ∃ L, Sound cfg s L :=
  hs.invariant (P := fun s => ∃ L, Sound cfg s L) ⟨_, initial cfg mem⟩
    (fun _ _ _ _ ⟨_, h⟩ hst => h.step hst)

end Sound

end Cilk.Allocator
