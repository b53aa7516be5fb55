import Mathlib.Data.List.Basic
import Mathlib.Data.List.Count
import Mathlib.Tactic

/-!
# Linear probing

A table of slots, each empty or with one entry. An entry has a slot that it
hashes to. A search starts there and goes on from slot to slot, around the end
of the table, up to an empty slot or one whose entry is what is searched for.

The table is in order if no empty slot lies between the one that an entry
hashes to and the one it is in. Then a search finds whatever is there, as long
as one slot is empty; and what is put where a search ends leaves the table in
order.
-/

namespace LinearProbing

variable {α : Type}

/-- Where a search ends: at a slot, and whether that is empty. -/
inductive Found
  | empty (slot : ℕ)
  | entry (slot : ℕ)
  deriving DecidableEq

/-- **A search** from the slot `h` for an entry that satisfies `p`. The number
bounds the slots that are looked at; there is no result if they do not suffice,
or if a slot outside the table is looked at. -/
def probe (table : List (Option α)) (p : α → Bool) : ℕ → ℕ → Option Found
  | 0, _ => none
  | fuel + 1, h =>
    match table[h]? with
    | none => none
    | some none => some (.empty h)
    | some (some a) =>
      if p a then some (.entry h) else probe table p fuel ((h + 1) % table.length)

/-- A slot is in use. -/
def Used (table : List (Option α)) (i : ℕ) : Prop := ∃ a, table[i]? = some (some a)

/-- **The table is in order**: what lies on the way from the slot an entry
hashes to, to the slot it is in, is in use. -/
def InOrder (hash : α → ℕ) (table : List (Option α)) : Prop :=
  ∀ i a, table[i]? = some (some a) →
    ∃ d, i = (hash a + d) % table.length ∧
      ∀ e, e < d → Used table ((hash a + e) % table.length)

/-- The entries. -/
def entries (table : List (Option α)) : List α := table.filterMap id

variable {table : List (Option α)} {p : α → Bool} {hash : α → ℕ}

theorem mem_entries {a : α} : a ∈ entries table ↔ ∃ i : ℕ, table[i]? = some (some a) := by
  unfold entries
  rw [List.mem_filterMap]
  constructor
  · rintro ⟨x, hx, rfl⟩
    exact List.mem_iff_getElem?.mp hx
  · rintro ⟨i, hi⟩
    exact ⟨some a, List.mem_of_getElem? hi, rfl⟩

theorem inOrder_replicate (n : ℕ) : InOrder hash (List.replicate n none) := by
  intro i a h
  have hmem := List.mem_of_getElem? h
  exact absurd (List.eq_of_mem_replicate hmem) (by simp)

theorem entries_replicate (n : ℕ) : entries (List.replicate n (none : Option α)) = [] := by
  unfold entries
  rw [List.filterMap_eq_nil_iff]
  intro x hx
  exact List.eq_of_mem_replicate hx

/-- **A search ends at the first slot that stops it.** -/
theorem probe_of_stop {h d : ℕ} {r : Found}
    (hpass : ∀ e, e < d → ∃ a, table[(h + e) % table.length]? = some (some a) ∧ p a = false)
    (hstop : probe table p 1 ((h + d) % table.length) = some r) {fuel : ℕ} (hfuel : d < fuel) :
    probe table p fuel (h % table.length) = some r := by
  induction d generalizing h fuel with
  | zero =>
    obtain ⟨fuel, rfl⟩ : ∃ n, fuel = n + 1 := ⟨fuel - 1, by omega⟩
    rw [Nat.add_zero] at hstop
    unfold probe at hstop ⊢
    generalize table[h % table.length]? = x at hstop ⊢
    match x with
    | none => exact hstop
    | some none => exact hstop
    | some (some a) =>
      dsimp only at hstop ⊢
      cases hp : p a with
      | true =>
        rw [hp] at hstop
        exact hstop
      | false =>
        rw [hp] at hstop
        exact absurd hstop (by simp [probe])
  | succ d ih =>
    obtain ⟨fuel, rfl⟩ : ∃ n, fuel = n + 1 := ⟨fuel - 1, by omega⟩
    obtain ⟨a, ha, hp⟩ := hpass 0 (Nat.succ_pos d)
    rw [Nat.add_zero] at ha
    unfold probe
    rw [ha]
    dsimp only
    rw [hp, if_neg (by decide), Nat.mod_add_mod]
    refine ih (h := h + 1) (fun e he => ?_) ?_ (by omega)
    · obtain ⟨b, hb, hpb⟩ := hpass (e + 1) (by omega)
      exact ⟨b, by rw [← hb]; congr 2; omega, hpb⟩
    · rw [← hstop]
      congr 2
      omega

/-- Around the table every slot comes up. -/
theorem exists_offset {h i : ℕ} (hi : i < table.length) :
    ∃ d, d < table.length ∧ (h + d) % table.length = i := by
  have hlt := Nat.mod_lt h (Nat.lt_of_le_of_lt (Nat.zero_le i) hi)
  refine ⟨(i + (table.length - h % table.length)) % table.length, Nat.mod_lt _ (by omega), ?_⟩
  rw [Nat.add_mod_mod, ← Nat.mod_add_mod]
  have hsum : h % table.length + (i + (table.length - h % table.length)) = i + table.length := by
    omega
  rw [hsum, Nat.add_mod_right, Nat.mod_eq_of_lt hi]

/-- What a slot does to a search. -/
theorem stop_or_pass (i : ℕ) (hi : i < table.length) :
    (∃ r, probe table p 1 i = some r) ∨ ∃ a, table[i]? = some (some a) ∧ p a = false := by
  unfold probe
  rw [List.getElem?_eq_getElem hi]
  cases hx : table[i] with
  | none => exact .inl ⟨_, rfl⟩
  | some a =>
    cases hp : p a with
    | true => exact .inl ⟨_, by dsimp only; rw [hp]; rfl⟩
    | false => exact .inr ⟨a, rfl, hp⟩

/-- The first slot on the way that stops a search, if one does. -/
theorem exists_first_stop {h d : ℕ} (hlen : 0 < table.length) {r : Found}
    (hstop : probe table p 1 ((h + d) % table.length) = some r) :
    ∃ d' ≤ d, (∃ r, probe table p 1 ((h + d') % table.length) = some r) ∧
      ∀ e, e < d' → ∃ a, table[(h + e) % table.length]? = some (some a) ∧ p a = false := by
  induction d using Nat.strong_induction_on generalizing r with
  | _ d ih =>
    by_cases hall : ∀ e, e < d → ∃ a, table[(h + e) % table.length]? = some (some a) ∧ p a = false
    · exact ⟨d, le_rfl, ⟨r, hstop⟩, hall⟩
    · push Not at hall
      obtain ⟨e, he, hnot⟩ := hall
      obtain ⟨r', hr'⟩ | ⟨a, ha, hp⟩ :=
        stop_or_pass (p := p) ((h + e) % table.length) (Nat.mod_lt _ hlen)
      · obtain ⟨d', hd', hrest⟩ := ih e he hr'
        exact ⟨d', hd'.trans he.le, hrest⟩
      · exact absurd hp (hnot a ha)

/-- What a search is stopped by. -/
theorem stop_cases {i : ℕ} {r : Found} (h : probe table p 1 i = some r) :
    (r = .empty i ∧ table[i]? = some none) ∨
      (r = .entry i ∧ ∃ a, table[i]? = some (some a) ∧ p a = true) := by
  unfold probe at h
  match hx : table[i]? with
  | none =>
    rw [hx] at h
    exact absurd h (by simp)
  | some none =>
    rw [hx] at h
    exact .inl ⟨(Option.some.inj h).symm, rfl⟩
  | some (some a) =>
    rw [hx] at h
    cases hp : p a with
    | true =>
      dsimp only at h
      rw [hp] at h
      exact .inr ⟨(Option.some.inj h).symm, a, rfl, hp⟩
    | false =>
      dsimp only at h
      rw [hp] at h
      exact absurd h (by simp [probe])

/-- **A search with an empty slot in the table ends**, after no more looks than
there are slots, and inside the table. -/
theorem exists_probe (h : ℕ) {i : ℕ} (hi : table[i]? = some none) :
    ∃ r d, probe table p table.length (h % table.length) = some r ∧
      probe table p 1 ((h + d) % table.length) = some r ∧
      ∀ e, e < d → ∃ a, table[(h + e) % table.length]? = some (some a) ∧ p a = false := by
  have hlt : i < table.length := (List.getElem?_eq_some_iff.mp hi).1
  obtain ⟨d, hd, hdi⟩ := exists_offset (h := h) hlt
  have hstop : probe table p 1 ((h + d) % table.length) = some (.empty i) := by
    rw [hdi, probe, hi]
  obtain ⟨d', hle, ⟨r, hr⟩, hpass⟩ := exists_first_stop (by omega) hstop
  exact ⟨r, d', probe_of_stop hpass hr (by omega), hr, hpass⟩

/-- **A search finds what is there**: in a table in order with an empty slot, it
ends at an entry if and only if some entry satisfies the predicate, where those
that do hash to where it starts. -/
theorem probe_spec (hord : InOrder hash table) {h i : ℕ} (hi : table[i]? = some none)
    (hhash : ∀ a, p a = true → hash a % table.length = h % table.length) :
    (∃ j, probe table p table.length (h % table.length) = some (.entry j) ∧
        ∃ a ∈ entries table, p a = true) ∨
      ∃ j, probe table p table.length (h % table.length) = some (.empty j) ∧
        table[j]? = some none ∧ (∀ a ∈ entries table, p a = false) ∧
        ∃ d, j = (h + d) % table.length ∧
          ∀ e, e < d → Used table ((h + e) % table.length) := by
  obtain ⟨r, d, hprobe, hstop, hpass⟩ := exists_probe (p := p) h hi
  obtain ⟨rfl, hempty⟩ | ⟨rfl, a, ha, hp⟩ := stop_cases hstop
  · refine .inr ⟨_, hprobe, hempty, fun a ha => ?_, d, rfl, fun e he => ?_⟩
    · -- an entry that satisfies it would have stopped the search before the empty slot
      by_contra hpa
      have hpa : p a = true := by simpa using hpa
      obtain ⟨j, hj⟩ := mem_entries.mp ha
      obtain ⟨c, hc, hway⟩ := hord j a hj
      have hmod : ∀ e, (hash a + e) % table.length = (h + e) % table.length := fun e => by
        rw [Nat.add_mod, hhash a hpa, ← Nat.add_mod]
      rw [hmod] at hc
      obtain hlt | hge := Nat.lt_or_ge c d
      · obtain ⟨b, hb, hpb⟩ := hpass c hlt
        rw [← hc, hj] at hb
        obtain rfl : a = b := Option.some.inj (Option.some.inj hb)
        rw [hpa] at hpb
        exact absurd hpb (by decide)
      · obtain rfl | hgt := Nat.eq_or_lt_of_le hge
        · rw [← hc, hj] at hempty
          exact absurd hempty (by simp)
        · obtain ⟨b, hb⟩ := hway d hgt
          rw [hmod, hempty] at hb
          exact absurd hb (by simp)
    · obtain ⟨a, ha, -⟩ := hpass e he
      exact ⟨a, ha⟩
  · exact .inl ⟨_, hprobe, a, mem_entries.mpr ⟨_, ha⟩, hp⟩

/-! ## What is put into an empty slot -/

variable {j : ℕ} {b : α}

theorem Used.set {i : ℕ} (h : Used table i) : Used (table.set j (some b)) i := by
  obtain ⟨a, ha⟩ := h
  have hi : i < table.length := (List.getElem?_eq_some_iff.mp ha).1
  by_cases hij : j = i
  · subst hij
    exact ⟨b, by rw [List.getElem?_set_self hi]⟩
  · exact ⟨a, by rw [List.getElem?_set_ne hij]; exact ha⟩

/-- **What is put where its search ended leaves the table in order.** -/
theorem InOrder.set (hord : InOrder hash table) {d : ℕ} (hj : j = (hash b + d) % table.length)
    (hway : ∀ e, e < d → Used table ((hash b + e) % table.length)) :
    InOrder hash (table.set j (some b)) := by
  intro i a ha
  rw [List.length_set]
  by_cases hij : j = i
  · subst hij
    have hlt : j < (table.set j (some b)).length := (List.getElem?_eq_some_iff.mp ha).1
    rw [List.length_set] at hlt
    rw [List.getElem?_set_self hlt] at ha
    obtain rfl : b = a := Option.some.inj (Option.some.inj ha)
    exact ⟨d, hj, fun e he => (hway e he).set⟩
  · rw [List.getElem?_set_ne hij] at ha
    obtain ⟨c, hc, hused⟩ := hord i a ha
    exact ⟨c, hc, fun e he => (hused e he).set⟩

theorem mem_entries_set (hj : table[j]? = some none) {a : α} :
    a ∈ entries (table.set j (some b)) ↔ a = b ∨ a ∈ entries table := by
  have hlt : j < table.length := (List.getElem?_eq_some_iff.mp hj).1
  rw [mem_entries, mem_entries]
  constructor
  · rintro ⟨i, hi⟩
    by_cases hij : j = i
    · subst hij
      rw [List.getElem?_set_self hlt] at hi
      exact .inl (Option.some.inj (Option.some.inj hi)).symm
    · rw [List.getElem?_set_ne hij] at hi
      exact .inr ⟨i, hi⟩
  · rintro (rfl | ⟨i, hi⟩)
    · exact ⟨j, List.getElem?_set_self hlt⟩
    · have hij : j ≠ i := by
        rintro rfl
        rw [hj] at hi
        exact absurd hi (by simp)
      exact ⟨i, by rw [List.getElem?_set_ne hij]; exact hi⟩

/-- How many slots are in use. -/
def used (table : List (Option α)) : ℕ := table.countP Option.isSome

theorem used_replicate (n : ℕ) : used (List.replicate n (none : Option α)) = 0 := by
  unfold used
  rw [List.countP_eq_zero]
  intro x hx
  rw [List.eq_of_mem_replicate hx]
  simp

theorem used_set (hj : table[j]? = some none) : used (table.set j (some b)) = used table + 1 := by
  have hlt : j < table.length := (List.getElem?_eq_some_iff.mp hj).1
  have hnone : table[j] = none := by
    rw [List.getElem?_eq_getElem hlt] at hj
    exact Option.some.inj hj
  unfold used
  rw [List.countP_set hlt, hnone]
  simp

/-- While not all slots are in use, one is empty. -/
theorem exists_empty (h : used table < table.length) : ∃ i : ℕ, table[i]? = some none := by
  by_contra hall
  push Not at hall
  have hcount : used table = table.length := by
    unfold used
    rw [List.countP_eq_length]
    intro x hx
    obtain ⟨i, hi⟩ := List.mem_iff_getElem?.mp hx
    cases x with
    | none => exact absurd hi (hall i)
    | some a => rfl
  omega

end LinearProbing
