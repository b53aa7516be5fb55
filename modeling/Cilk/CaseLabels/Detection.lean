import Cilk.CaseLabels.Model

/-!
# Which labels are found to be duplicate

A table in use holds the keys of the labels that were checked, so a label is
reported if and only if one with its key came before. The switches of a
statement do not disturb each other, as each has its own table and a label goes
to that of its innermost switch.

A key is the attached constant as an `unsigned long`.
-/

namespace Cilk.CaseLabels

open ConstFold LinearProbing

variable {F : Floats} {E : Type}

/-! ## One switch -/

namespace Label

/-- The constant of a `Case` with an integer constant. -/
def value (l : Label (Node F)) : Option ℤ :=
  l.expr.bind fun expr =>
    if IsIntegralConstant expr then
      match expr.value with
      | some (.int _ v) => some v
      | _ => none
    else none

/-- A `Case` whose constant is kept in a floating type, though its own is an
integer type. -/
def IsFloating (l : Label (Node F)) : Prop :=
  ∃ expr, l.expr = some expr ∧ IsIntegralConstant expr = true ∧ l.value = none

def isDefault (l : Label E) : Bool := l.expr.isNone

end Label

/-- The constants of the labels of a switch. -/
def values (L : List (Label (Node F))) : List ℤ := L.filterMap Label.value

/-- What is done at a label, with its switch's table. -/
def checkLabel (check : SwitchCheck F) (l : Label (Node F)) : Option (SwitchCheck F × List Error) :=
  match l.expr with
  | some expr =>
    if IsIntegralConstant expr then SwitchCheckAddCase check l.id expr
    else some (check, [.notConstant l.id])
  | none => some (SwitchCheckAddDefault check l.id)

/-- What is done at all labels of a switch. -/
def checkLabels : SwitchCheck F → List (Label (Node F)) → Option (SwitchCheck F × List Error)
  | check, [] => some (check, [])
  | check, l :: L => do
    let (check, errors) ← checkLabel check l
    let (check, more) ← checkLabels check L
    pure (check, errors ++ more)

theorem checkLabels_append (check : SwitchCheck F) (L M : List (Label (Node F))) :
    checkLabels check (L ++ M) = (checkLabels check L).bind fun r =>
      (checkLabels r.1 M).map fun q => (q.1, r.2 ++ q.2) := by
  induction L generalizing check with
  | nil =>
    show checkLabels check M = (checkLabels check M).map fun q => (q.1, [] ++ q.2)
    cases checkLabels check M <;> rfl
  | cons l L ih =>
    show (checkLabel check l).bind (fun r => (checkLabels r.1 (L ++ M)).bind fun q =>
      some (q.1, r.2 ++ q.2)) = _
    show _ = ((checkLabel check l).bind fun r => (checkLabels r.1 L).bind fun q =>
      some (q.1, r.2 ++ q.2)).bind _
    cases checkLabel check l with
    | none => rfl
    | some r =>
      show (checkLabels r.1 (L ++ M)).bind _ = ((checkLabels r.1 L).bind _).bind _
      rw [ih]
      cases checkLabels r.1 L with
      | none => rfl
      | some q =>
        show ((checkLabels q.1 M).map _).bind _ = (checkLabels q.1 M).map _
        cases checkLabels q.1 M with
        | none => rfl
        | some t =>
          show some (t.1, r.2 ++ (q.2 ++ t.2)) = some (t.1, r.2 ++ q.2 ++ t.2)
          rw [List.append_assoc]

/-- The slot that an entry hashes to. -/
def hash (table : List (Option (Node F))) (e : Node F) : ℕ :=
  ((key e).getD 0).toNat % table.length

/-- **What a table says** of the labels that were checked. -/
structure Holds (check : SwitchCheck F) (seen : List (Label (Node F))) : Prop where
  inOrder : InOrder (hash check.table) check.table
  used_le : used check.table ≤ seen.length
  keys : ∀ k, (∃ e ∈ entries check.table, key e = some k) ↔
    k ∈ (values seen).map Kind.Ulong.intType.convert
  default : check.defaultcase.isSome = true ↔ ∃ l ∈ seen, l.isDefault = true

theorem holds_new {cases : List NodeId} {check : SwitchCheck F}
    (h : NewSwitchCheck cases = some check) :
    Holds check [] ∧ check.table.length = 2 * cases.length := by
  unfold NewSwitchCheck at h
  dsimp only at h
  split at h
  · obtain rfl := Option.some.inj h
    refine ⟨⟨inOrder_replicate _, ?_, ?_, ?_⟩, ?_⟩
    · exact le_of_eq (used_replicate _)
    · intro k
      rw [entries_replicate]
      simp [values]
    · simp
    · rw [List.length_replicate, HASH_FACTOR, Nat.mul_comm]
  · exact absurd h (by simp)

theorem value_eq_some_iff {l : Label (Node F)} {v : ℤ} :
    l.value = some v ↔ ∃ expr k, l.expr = some expr ∧ IsIntegralConstant expr = true ∧
      expr.value = some (.int k v) := by
  unfold Label.value
  constructor
  · intro h
    obtain ⟨expr, hexpr, h⟩ := Option.bind_eq_some_iff.mp h
    by_cases hc : IsIntegralConstant expr
    · rw [if_pos hc] at h
      match hv : expr.value with
      | some (.int k w) =>
        rw [hv] at h
        obtain rfl : w = v := Option.some.inj h
        exact ⟨expr, k, hexpr, hc, hv⟩
      | some (.float _) =>
        rw [hv] at h
        exact absurd h (by simp)
      | some (.double _) =>
        rw [hv] at h
        exact absurd h (by simp)
      | none =>
        rw [hv] at h
        exact absurd h (by simp)
    · rw [if_neg hc] at h
      exact absurd h (by simp)
  · rintro ⟨expr, k, hexpr, hc, hv⟩
    rw [hexpr]
    show (if IsIntegralConstant expr then _ else _) = _
    rw [if_pos hc, hv]

theorem key_of_int {expr : Node F} {k : Kind} {v : ℤ} (h : expr.value = some (.int k v)) :
    key expr = some (Kind.Ulong.intType.convert v) := by
  unfold key ConstFold.Node.constantIntegralValue
  rw [h]
  rfl

/-- A label with an integer, in a table that has a slot left. -/
theorem checkLabel_case {check : SwitchCheck F} {seen : List (Label (Node F))}
    (h : Holds check seen)
    (hroom : used check.table < check.table.length) {l : Label (Node F)} {v : ℤ}
    (hv : l.value = some v) :
    ∃ check' errors, checkLabel check l = some (check', errors) ∧
      Holds check' (seen ++ [l]) ∧ check'.table.length = check.table.length ∧
      ((∃ id, Error.duplicate id ∈ errors) ↔
        Kind.Ulong.intType.convert v ∈ (values seen).map Kind.Ulong.intType.convert) ∧
      (∀ id, Error.multipleDefault id ∉ errors) ∧
      (∀ id, Error.duplicate id ∈ errors → id = l.id) := by
  obtain ⟨expr, k, hexpr, hc, hval⟩ := value_eq_some_iff.mp hv
  have hkey := key_of_int hval
  have hlen : 0 < check.table.length := by omega
  have hvalues : values (seen ++ [l]) = values seen ++ [v] := by
    unfold values
    rw [List.filterMap_append, List.filterMap_cons_some hv]
    rfl
  have hdefault : l.isDefault = false := by
    unfold Label.isDefault
    rw [hexpr]
    rfl
  have hdefaults : (∃ m ∈ seen ++ [l], m.isDefault = true) ↔ ∃ m ∈ seen, m.isDefault = true := by
    constructor
    · rintro ⟨m, hm, hd⟩
      obtain hm | hm := List.mem_append.mp hm
      · exact ⟨m, hm, hd⟩
      · obtain rfl := List.mem_singleton.mp hm
        rw [hdefault] at hd
        exact absurd hd (by decide)
    · rintro ⟨m, hm, hd⟩
      exact ⟨m, List.mem_append_left _ hm, hd⟩
  unfold checkLabel
  rw [hexpr]
  dsimp only
  rw [if_pos hc]
  unfold SwitchCheckAddCase
  rw [hkey]
  generalize hkv : Kind.Ulong.intType.convert v = kv at hkey ⊢
  obtain ⟨i, hi⟩ := exists_empty hroom
  have hhash : ∀ e : Node F, decide (key e = some kv) = true →
      hash check.table e % check.table.length = kv.toNat % check.table.length := by
    intro e he
    unfold hash
    rw [of_decide_eq_true he, Nat.mod_mod]
    rfl
  obtain ⟨j, hprobe, e, he, hpe⟩ | ⟨j, hprobe, hj, hall, d, hjd, hway⟩ :=
    probe_spec (p := fun e => decide (key e = some kv)) h.inOrder hi hhash
  · have hfound : kv ∈ (values seen).map Kind.Ulong.intType.convert :=
      (h.keys kv).mp ⟨e, he, of_decide_eq_true hpe⟩
    refine ⟨check, [.duplicate l.id], ?_, ⟨h.inOrder, ?_, ?_, ?_⟩, rfl, ?_, ?_, ?_⟩
    · show (if _ then none else _) = _
      rw [if_neg hlen.ne']
      show (probe _ _ _ _).bind _ = _
      rw [hprobe]
      rfl
    · have := h.used_le
      rw [List.length_append]
      omega
    · intro k'
      rw [h.keys, hvalues, List.map_append, List.mem_append]
      constructor
      · exact .inl
      · rintro (hmem | hmem)
        · exact hmem
        · obtain rfl : k' = _ := List.mem_singleton.mp hmem
          rw [hkv]
          exact hfound
    · rw [hdefaults]
      exact h.default
    · exact ⟨fun _ => hfound, fun _ => ⟨l.id, List.mem_singleton_self _⟩⟩
    · intro id hid
      exact absurd (List.mem_singleton.mp hid) (by simp)
    · intro id hid
      exact Error.duplicate.inj (List.mem_singleton.mp hid)
  · have hnot : kv ∉ (values seen).map Kind.Ulong.intType.convert := by
      intro hmem
      obtain ⟨e, he, hke⟩ := (h.keys kv).mpr hmem
      have := hall e he
      rw [decide_eq_true hke] at this
      exact absurd this (by decide)
    have hmodj : j = (hash check.table expr + d) % check.table.length := by
      rw [hjd, Nat.add_mod, ← hhash expr (decide_eq_true hkey), ← Nat.add_mod]
    have hsame : hash (check.table.set j (some expr)) = hash check.table := by
      funext e
      unfold hash
      rw [List.length_set]
    have hord : InOrder (hash check.table) (check.table.set j (some expr)) :=
      h.inOrder.set hmodj fun e he => by
        have := hway e he
        rw [Nat.add_mod, ← hhash expr (decide_eq_true hkey), ← Nat.add_mod] at this
        exact this
    refine ⟨{ check with table := check.table.set j (some expr) }, [], ?_, ⟨?_, ?_, ?_, ?_⟩,
      List.length_set, ?_, ?_, ?_⟩
    · show (if _ then none else _) = _
      rw [if_neg hlen.ne']
      show (probe _ _ _ _).bind _ = _
      rw [hprobe]
      rfl
    · show InOrder (hash (check.table.set j (some expr))) _
      rw [hsame]
      exact hord
    · show used (check.table.set j (some expr)) ≤ _
      have := h.used_le
      rw [used_set hj, List.length_append, List.length_singleton]
      omega
    · intro k'
      rw [hvalues, List.map_append, List.mem_append, ← h.keys]
      constructor
      · rintro ⟨e, he, hke⟩
        obtain rfl | he := (mem_entries_set hj).mp he
        · right
          rw [hkey] at hke
          rw [← Option.some.inj hke, List.map_singleton, hkv]
          exact List.mem_singleton_self _
        · exact .inl ⟨e, he, hke⟩
      · rintro (⟨e, he, hke⟩ | hmem)
        · exact ⟨e, (mem_entries_set hj).mpr (.inr he), hke⟩
        · rw [List.map_singleton, hkv] at hmem
          obtain rfl := List.mem_singleton.mp hmem
          exact ⟨expr, (mem_entries_set hj).mpr (.inl rfl), hkey⟩
    · rw [hdefaults]
      exact h.default
    · exact ⟨fun ⟨_, hid⟩ => absurd hid List.not_mem_nil, fun hmem => absurd hmem hnot⟩
    · exact fun _ => List.not_mem_nil
    · exact fun _ hid => absurd hid List.not_mem_nil

/-- A label without a constant leaves the table as it is. -/
theorem Holds.of_table {check : SwitchCheck F} {seen : List (Label (Node F))} (h : Holds check seen)
    {l : Label (Node F)} (hv : l.value = none) (defaultcase : Option NodeId)
    (hdefault : defaultcase.isSome = true ↔ ∃ m ∈ seen ++ [l], m.isDefault = true) :
    Holds { check with defaultcase := defaultcase } (seen ++ [l]) := by
  have hvalues : values (seen ++ [l]) = values seen := by
    unfold values
    rw [List.filterMap_append, List.filterMap_cons_none hv]
    exact List.append_nil _
  refine ⟨h.inOrder, ?_, ?_, hdefault⟩
  · have := h.used_le
    rw [List.length_append]
    exact this.trans (Nat.le_add_right _ _)
  · intro k
    rw [hvalues]
    exact h.keys k

/-- A `Default`. -/
theorem checkLabel_default {check : SwitchCheck F} {seen : List (Label (Node F))}
    (h : Holds check seen)
    {l : Label (Node F)} (hl : l.isDefault = true) :
    ∃ check' errors, checkLabel check l = some (check', errors) ∧
      Holds check' (seen ++ [l]) ∧ check'.table.length = check.table.length ∧
      ((∃ id, Error.multipleDefault id ∈ errors) ↔ ∃ m ∈ seen, m.isDefault = true) ∧
      (∀ id, Error.duplicate id ∉ errors) ∧
      (∀ id, Error.multipleDefault id ∈ errors → id = l.id) := by
  have hexpr : l.expr = none := Option.isNone_iff_eq_none.mp hl
  have hv : l.value = none := by
    unfold Label.value
    rw [hexpr]
    rfl
  have hany : ∃ m ∈ seen ++ [l], m.isDefault = true :=
    ⟨l, List.mem_append_right _ (List.mem_singleton_self _), hl⟩
  unfold checkLabel SwitchCheckAddDefault
  rw [hexpr]
  cases hd : check.defaultcase with
  | some node =>
    have hseen : ∃ m ∈ seen, m.isDefault = true := h.default.mp (by rw [hd]; rfl)
    refine ⟨_, _, rfl, h.of_table hv check.defaultcase ?_, rfl, ?_, ?_, ?_⟩
    · rw [hd]
      exact ⟨fun _ => hany, fun _ => rfl⟩
    · exact ⟨fun _ => hseen, fun _ => ⟨l.id, List.mem_singleton_self _⟩⟩
    · intro id hid
      exact absurd (List.mem_singleton.mp hid) (by simp)
    · intro id hid
      exact Error.multipleDefault.inj (List.mem_singleton.mp hid)
  | none =>
    have hseen : ¬ ∃ m ∈ seen, m.isDefault = true := fun hm => by
      have := h.default.mpr hm
      rw [hd] at this
      exact absurd this (by decide)
    refine ⟨_, _, rfl, h.of_table hv _ ⟨fun _ => hany, fun _ => rfl⟩, rfl, ?_, ?_, ?_⟩
    · exact ⟨fun ⟨_, hid⟩ => absurd hid List.not_mem_nil, fun hm => absurd hm hseen⟩
    · exact fun _ => List.not_mem_nil
    · exact fun _ hid => absurd hid List.not_mem_nil

/-- A `Case` whose expression is no integer constant. -/
theorem checkLabel_notConstant {check : SwitchCheck F} {seen : List (Label (Node F))}
    (h : Holds check seen) {l : Label (Node F)} {expr : Node F} (hexpr : l.expr = some expr)
    (hc : IsIntegralConstant expr = false) :
    checkLabel check l = some (check, [.notConstant l.id]) ∧ Holds check (seen ++ [l]) := by
  have hv : l.value = none := by
    unfold Label.value
    rw [hexpr]
    show (if IsIntegralConstant expr then _ else _) = _
    rw [hc]
    rfl
  have hdefault : l.isDefault = false := by
    unfold Label.isDefault
    rw [hexpr]
    rfl
  refine ⟨?_, h.of_table hv check.defaultcase ?_⟩
  · unfold checkLabel
    rw [hexpr]
    dsimp only
    rw [hc]
    rfl
  · rw [h.default]
    constructor
    · rintro ⟨m, hm, hd⟩
      exact ⟨m, List.mem_append_left _ hm, hd⟩
    · rintro ⟨m, hm, hd⟩
      obtain hm | hm := List.mem_append.mp hm
      · exact ⟨m, hm, hd⟩
      · obtain rfl := List.mem_singleton.mp hm
        rw [hdefault] at hd
        exact absurd hd (by decide)

/-- The check ends at a constant of a floating type. -/
theorem checkLabel_floating {l : Label (Node F)} (h : l.IsFloating) (check : SwitchCheck F) :
    checkLabel check l = none := by
  obtain ⟨expr, hexpr, hc, hv⟩ := h
  have hkey : key expr = none := by
    unfold key ConstFold.Node.constantIntegralValue
    match hval : expr.value with
    | some (.int k v) =>
      have : l.value = some v := value_eq_some_iff.mpr ⟨expr, k, hexpr, hc, hval⟩
      rw [hv] at this
      exact absurd this (by simp)
    | some (.float _) => rfl
    | some (.double _) => rfl
    | none => rfl
  unfold checkLabel SwitchCheckAddCase
  rw [hexpr]
  dsimp only
  rw [if_pos hc, hkey]
  rfl

/-- The `Default` labels. -/
def defaults (L : List (Label E)) : ℕ := L.countP Label.isDefault

theorem defaults_pos_iff {L : List (Label E)} : 0 < defaults L ↔ ∃ l ∈ L, l.isDefault = true := by
  unfold defaults
  exact List.countP_pos_iff

/-- **One label**, whichever it is. -/
theorem checkLabel_spec {check : SwitchCheck F} {seen : List (Label (Node F))}
    (h : Holds check seen)
    (hroom : used check.table < check.table.length) {l : Label (Node F)} (hl : ¬ l.IsFloating) :
    ∃ check' errors, checkLabel check l = some (check', errors) ∧
      Holds check' (seen ++ [l]) ∧ check'.table.length = check.table.length ∧
      ((∃ id, Error.duplicate id ∈ errors) ↔ ∃ v, l.value = some v ∧
        Kind.Ulong.intType.convert v ∈ (values seen).map Kind.Ulong.intType.convert) ∧
      ((∃ id, Error.multipleDefault id ∈ errors) ↔
        l.isDefault = true ∧ ∃ m ∈ seen, m.isDefault = true) ∧
      ∀ id, Error.duplicate id ∈ errors ∨ Error.multipleDefault id ∈ errors → id = l.id := by
  cases hv : l.value with
  | some v =>
    obtain ⟨check', errors, hcheck, hholds, hlen, hdup, hmult, hid⟩ :=
      checkLabel_case h hroom hv
    have hdefault : l.isDefault = false := by
      obtain ⟨expr, -, hexpr, -⟩ := value_eq_some_iff.mp hv
      unfold Label.isDefault
      rw [hexpr]
      rfl
    refine ⟨check', errors, hcheck, hholds, hlen, ?_, ?_, ?_⟩
    · rw [hdup]
      exact ⟨fun hmem => ⟨v, rfl, hmem⟩, fun ⟨w, hw, hmem⟩ => Option.some.inj hw ▸ hmem⟩
    · exact ⟨fun ⟨id, hmem⟩ => absurd hmem (hmult id), fun hm => by
        rw [hdefault] at hm
        exact absurd hm.1 (by decide)⟩
    · rintro id (hmem | hmem)
      · exact hid id hmem
      · exact absurd hmem (hmult id)
  | none =>
    have hdup : ¬ ∃ v, (none : Option ℤ) = some v ∧
        Kind.Ulong.intType.convert v ∈ (values seen).map Kind.Ulong.intType.convert := by
      rintro ⟨v, hv, -⟩
      exact absurd hv (by simp)
    cases hexpr : l.expr with
    | none =>
      have hdefault : l.isDefault = true := by
        unfold Label.isDefault
        rw [hexpr]
        rfl
      obtain ⟨check', errors, hcheck, hholds, hlen, hmult, hno, hid⟩ :=
        checkLabel_default h hdefault
      refine ⟨check', errors, hcheck, hholds, hlen, ?_, ?_, ?_⟩
      · exact ⟨fun ⟨id, hmem⟩ => absurd hmem (hno id), fun hex => absurd hex hdup⟩
      · rw [hmult]
        exact ⟨fun hm => ⟨hdefault, hm⟩, fun hm => hm.2⟩
      · rintro id (hmem | hmem)
        · exact absurd hmem (hno id)
        · exact hid id hmem
    | some expr =>
      have hc : IsIntegralConstant expr = false := by
        by_contra hc
        exact hl ⟨expr, hexpr, by simpa using hc, hv⟩
      obtain ⟨hcheck, hholds⟩ := checkLabel_notConstant h hexpr hc
      refine ⟨check, _, hcheck, hholds, rfl, ?_, ?_, ?_⟩
      · refine ⟨fun ⟨id, hmem⟩ => ?_, fun hex => absurd hex hdup⟩
        exact absurd (List.mem_singleton.mp hmem) (by simp)
      · constructor
        · rintro ⟨id, hmem⟩
          exact absurd (List.mem_singleton.mp hmem) (by simp)
        · rintro ⟨hd, -⟩
          unfold Label.isDefault at hd
          rw [hexpr] at hd
          exact absurd hd (by simp)
      · rintro id (hmem | hmem) <;> exact absurd (List.mem_singleton.mp hmem) (by simp)

theorem new_or_old {old nodup disjoint new : Prop} :
    old ∨ ¬ (nodup ∧ disjoint ∧ new) ↔ ¬ ((new ∧ nodup) ∧ ¬ old ∧ disjoint) := by
  tauto

/-- **All labels of a switch.** With enough slots, a duplicate is reported if
and only if two keys are equal, a default if and only if it is not the first. -/
theorem checkLabels_spec {check : SwitchCheck F} {seen L : List (Label (Node F))}
    (h : Holds check seen)
    (hroom : seen.length + L.length ≤ check.table.length)
    (hfloating : ∀ l ∈ L, ¬ l.IsFloating) :
    ∃ check' errors, checkLabels check L = some (check', errors) ∧
      ((∃ id, Error.duplicate id ∈ errors) ↔
        ¬ (((values L).map Kind.Ulong.intType.convert).Nodup ∧
          ((values L).map Kind.Ulong.intType.convert).Disjoint
            ((values seen).map Kind.Ulong.intType.convert))) ∧
      ((∃ id, Error.multipleDefault id ∈ errors) ↔
        0 < defaults L ∧ 2 ≤ defaults seen + defaults L) ∧
      ∀ id, Error.duplicate id ∈ errors ∨ Error.multipleDefault id ∈ errors →
        id ∈ L.map Label.id := by
  induction L generalizing check seen with
  | nil =>
    refine ⟨check, [], rfl, ?_, ?_, ?_⟩
    · simp [values]
    · simp [defaults]
    · simp
  | cons l L ih =>
    rw [List.length_cons] at hroom
    have hused := h.used_le
    obtain ⟨check', errors, hcheck, hholds, hlen, hdup, hmult, hid⟩ :=
      checkLabel_spec h (by omega) (hfloating l List.mem_cons_self)
    obtain ⟨check'', more, hchecks, hdups, hmults, hids⟩ := ih hholds
      (by rw [hlen, List.length_append, List.length_singleton]; omega)
      fun m hm => hfloating m (List.mem_cons_of_mem _ hm)
    refine ⟨check'', errors ++ more, ?_, ?_, ?_, ?_⟩
    · show (checkLabel check l).bind _ = _
      rw [hcheck]
      show (checkLabels check' L).bind _ = _
      rw [hchecks]
      rfl
    · have hor : (∃ id, Error.duplicate id ∈ errors ++ more) ↔
          (∃ id, Error.duplicate id ∈ errors) ∨ ∃ id, Error.duplicate id ∈ more := by
        simp only [List.mem_append, exists_or]
      rw [hor, hdup, hdups]
      unfold values
      cases hv : l.value with
      | none =>
        rw [List.filterMap_append, List.filterMap_cons_none hv, List.filterMap_cons_none hv]
        simp
      | some v =>
        rw [List.filterMap_append, List.filterMap_cons_some hv, List.filterMap_cons_some hv]
        simp only [List.filterMap_nil, List.map_append, List.map_cons, List.map_nil,
          List.nodup_cons, List.disjoint_cons_left, List.disjoint_append_right,
          List.disjoint_singleton, Option.some.injEq, exists_eq_left']
        exact new_or_old
    · have hor : (∃ id, Error.multipleDefault id ∈ errors ++ more) ↔
          (∃ id, Error.multipleDefault id ∈ errors) ∨ ∃ id, Error.multipleDefault id ∈ more := by
        simp only [List.mem_append, exists_or]
      rw [hor, hmult, hmults, ← defaults_pos_iff]
      have hcons : defaults (l :: L) = defaults L + if l.isDefault = true then 1 else 0 :=
        List.countP_cons
      have happend : defaults (seen ++ [l]) =
          defaults seen + if l.isDefault = true then 1 else 0 := by
        unfold defaults
        rw [List.countP_append, List.countP_singleton]
      rw [hcons, happend]
      by_cases hd : l.isDefault = true
      · simp only [hd, if_true, true_and]
        omega
      · simp [hd]
    · intro id hmem
      rw [List.mem_append, List.mem_append] at hmem
      rw [List.map_cons, List.mem_cons]
      obtain (hmem | hmem) | (hmem | hmem) := hmem
      · exact .inl (hid id (.inl hmem))
      · exact .inr (hids id (.inl hmem))
      · exact .inl (hid id (.inr hmem))
      · exact .inr (hids id (.inr hmem))

/-- A floating constant ends the check of all labels. -/
theorem checkLabels_floating {L : List (Label (Node F))} {l : Label (Node F)} (hl : l ∈ L)
    (h : l.IsFloating) (check : SwitchCheck F) : checkLabels check L = none := by
  obtain ⟨L₁, L₂, rfl⟩ := List.append_of_mem hl
  rw [checkLabels_append]
  cases checkLabels check L₁ with
  | none => rfl
  | some r =>
    show ((checkLabel r.1 l).bind _).map _ = none
    rw [checkLabel_floating h]
    rfl

end Cilk.CaseLabels
