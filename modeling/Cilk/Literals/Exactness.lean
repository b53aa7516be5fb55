import Mathlib.Data.List.TakeWhile
import Cilk.Literals.Decoding

/-!
# When literals are decoded as C prescribes

The type that `int_constant` gives an integer is compared with C's, for every
base and suffix, and the kinds of literals, narrow and wide, are put together.
-/

namespace Cilk.Literals

open ConstFold

/-! ## The text of an integer -/

theorem hex_digit_suffix (s : Suffix) : hex_digit (at' s.text 0) = none := by
  rcases s with ⟨u, l, f, uc, lc⟩
  revert u l f uc lc
  decide

theorem octal_digit_suffix (s : Suffix) : octal_digit (at' s.text 0) = none := by
  rcases s with ⟨u, l, f, uc, lc⟩
  revert u l f uc lc
  decide

theorem suffix_ne_x (s : Suffix) : at' s.text 0 ≠ byte 'x' ∧ at' s.text 0 ≠ byte 'X' := by
  rcases s with ⟨u, l, f, uc, lc⟩
  revert u l f uc lc
  decide

theorem digitIn_suffix (base : ℕ) (s : Suffix) : digitIn base (at' s.text 0) = none := by
  unfold digitIn
  rw [hex_digit_suffix]
  rfl

/-- The loop over a suffix that ends at a digit. -/
theorem suffixLoop_text (s : Suffix) (b : Bool) {c : ℕ} (hc : isxdigit c) (p : List ℕ) :
    suffixLoop (s.text.reverse ++ c :: p) b 0 = (b || s.u, (s.l : ℕ)) := by
  have hstop : ∀ b n, suffixLoop (c :: p) b n = (b, n) := by
    intro b n
    unfold suffixLoop
    exact if_pos hc
  have hu : isxdigit (byte 'u') = false := by decide
  have hU : isxdigit (byte 'U') = false := by decide
  have hl : isxdigit (byte 'l') = false := by decide
  have hL : isxdigit (byte 'L') = false := by decide
  have stepU : ∀ q b n, suffixLoop (byte 'U' :: q) b n = suffixLoop q true n := fun q b n => by
    rw [suffixLoop, hU]
    rfl
  have stepu : ∀ q b n, suffixLoop (byte 'u' :: q) b n = suffixLoop q true n := fun q b n => by
    rw [suffixLoop, hu]
    rfl
  have stepL : ∀ q b n, suffixLoop (byte 'L' :: q) b n = suffixLoop q b (n + 1) := fun q b n => by
    rw [suffixLoop, hL]
    rfl
  have stepl : ∀ q b n, suffixLoop (byte 'l' :: q) b n = suffixLoop q b (n + 1) := fun q b n => by
    rw [suffixLoop, hl]
    rfl
  rcases s with ⟨u, l, f, uc, lc⟩
  fin_cases l <;> cases u <;> cases f <;> cases uc <;> cases lc <;>
    simp [Suffix.text, Suffix.uText, Suffix.lText, List.replicate, hstop, stepU, stepu, stepL, stepl]

namespace Integer

variable {n : Integer}

/-- The scanner takes it for a decimal constant: a zero alone is one for it. -/
def ReadAsDecimal (n : Integer) : Prop :=
  n.base = .decimal ∨ n.base = .octal ∧ n.digits = []

instance : Decidable n.ReadAsDecimal := inferInstanceAs (Decidable (_ ∨ _))

theorem exists_last {ds : List Digit} (h : ds ≠ []) :
    ∃ p d, digitsText ds = p ++ [Digit.text d] :=
  ⟨digitsText ds.dropLast, ds.getLast h, by
    rw [digitsText, digitsText, ← List.map_singleton (f := Digit.text), ← List.map_append,
      List.dropLast_append_getLast h]⟩

/-- Before the suffix of an integer stands a digit. -/
theorem text_eq (h : n.Valid) :
    ∃ p d, n.text = p ++ [Digit.text d] ++ n.suffix.text := by
  obtain ⟨-, h⟩ := h
  unfold text
  cases hb : n.base with
  | decimal =>
    rw [hb] at h
    obtain ⟨p, d, hp⟩ := exists_last h.1
    exact ⟨p, d, by dsimp only; rw [hp]⟩
  | octal =>
    by_cases hd : n.digits = []
    · refine ⟨[], ⟨0, false⟩, ?_⟩
      dsimp only
      rw [hd]
      rfl
    · obtain ⟨p, d, hp⟩ := exists_last hd
      refine ⟨byte '0' :: p, d, ?_⟩
      dsimp only
      rw [hp]
      rfl
  | hexadecimal =>
    rw [hb] at h
    obtain ⟨p, d, hp⟩ := exists_last h
    refine ⟨byte '0' :: (if n.capitalX then byte 'X' else byte 'x') :: p, d, ?_⟩
    dsimp only
    rw [hp]
    rfl

theorem suffixLoop_reverse (h : n.Valid) (b : Bool) :
    suffixLoop n.text.reverse b 0 = (b || n.suffix.u, (n.suffix.l : ℕ)) := by
  obtain ⟨p, d, hp⟩ := text_eq h
  have hd : isxdigit d.text = true := by
    unfold isxdigit
    rw [hex_digit_text]
    rfl
  rw [hp, List.reverse_append, List.reverse_append]
  exact suffixLoop_text n.suffix b hd p.reverse

theorem at'_decimal {d : Digit} (hd : (d.val : ℕ) < 10) (h0 : (d.val : ℕ) ≠ 0) :
    d.text ≠ byte '0' := by
  rcases d with ⟨v, c⟩
  revert v c
  decide

theorem octal_ne_x {d : Digit} (hd : (d.val : ℕ) < 8) :
    d.text ≠ byte 'x' ∧ d.text ≠ byte 'X' := by
  rcases d with ⟨v, c⟩
  revert v c
  decide

/-- **What the scanner sees at the front of an integer**: the pattern it finds,
and where `strtoul` starts. -/
theorem front (h : n.Valid) :
    (IntegerPattern.of n.text = .decimal_constant ↔ n.ReadAsDecimal) ∧
      strtoul n.text = Min.min (n.value : ℤ) Kind.Ulong.intType.max := by
  obtain ⟨hdig, hbase⟩ := h
  unfold IntegerPattern.of strtoul value ReadAsDecimal
  unfold radix at hdig ⊢
  cases hb : n.base with
  | decimal =>
    rw [hb] at hdig hbase
    obtain ⟨d, ds, hds⟩ := List.exists_cons_of_ne_nil hbase.1
    have hd := hdig d (hds ▸ List.mem_cons_self)
    have hne := at'_decimal hd (hbase.2 d (by rw [hds]; rfl))
    have htext : n.text = digitsText n.digits ++ n.suffix.text := by
      unfold text
      rw [hb]
    have h0 : at' n.text 0 ≠ byte '0' := by
      rw [htext, hds]
      exact hne
    rw [if_pos h0, if_neg fun h => h0 h.1, if_neg h0, htext,
      digitsLoop_digits _ hdig (digitIn_suffix 10 _)]
    exact ⟨⟨fun _ => .inl rfl, fun _ => rfl⟩, rfl⟩
  | octal =>
    rw [hb] at hdig
    have htext : n.text = digitsText (⟨0, false⟩ :: n.digits) ++ n.suffix.text := by
      unfold text
      rw [hb]
      rfl
    have h0 : at' n.text 0 = byte '0' := by
      rw [htext]
      rfl
    have h1 : at' n.text 1 = at' (digitsText n.digits ++ n.suffix.text) 0 := by
      rw [htext]
      rfl
    have hx : ¬ (at' n.text 1 = byte 'x' ∨ at' n.text 1 = byte 'X') := by
      rw [h1, not_or]
      cases hds : n.digits with
      | nil => exact suffix_ne_x _
      | cons d ds => exact octal_ne_x (hdig d (hds ▸ List.mem_cons_self))
    have hall : ∀ d ∈ (⟨0, false⟩ :: n.digits : List Digit), (d.val : ℕ) < 8 := by
      intro d hd
      obtain rfl | hd := List.mem_cons.mp hd
      · exact Nat.zero_lt_succ _
      · exact hdig d hd
    refine ⟨?_, ?_⟩
    · rw [if_neg (not_not_intro h0), if_neg hx, h1]
      cases hds : n.digits with
      | nil =>
        have hsuffix : octal_digit (at' (digitsText [] ++ n.suffix.text) 0) = none :=
          octal_digit_suffix n.suffix
        rw [hsuffix]
        exact ⟨fun _ => .inr ⟨rfl, rfl⟩, fun _ => rfl⟩
      | cons d ds =>
        have hdigit : octal_digit (at' (digitsText (d :: ds) ++ n.suffix.text) 0) = some (d.val : ℕ) :=
          octal_digit_text (hdig d (hds ▸ List.mem_cons_self))
        rw [hdigit]
        exact ⟨fun h => absurd h (by simp), fun h => by simp at h⟩
    · rw [if_neg fun h => hx h.2, if_pos h0, htext, digitsLoop_digits _ hall (digitIn_suffix 8 _)]
      rfl
  | hexadecimal =>
    rw [hb] at hdig
    have htext : n.text = byte '0' :: (if n.capitalX then byte 'X' else byte 'x') ::
        (digitsText n.digits ++ n.suffix.text) := by
      unfold text
      rw [hb]
    have h0 : at' n.text 0 = byte '0' := by
      rw [htext]
      rfl
    have hx : at' n.text 1 = byte 'x' ∨ at' n.text 1 = byte 'X' := by
      rw [htext]
      cases n.capitalX
      · exact .inl rfl
      · exact .inr rfl
    have hdrop : n.text.drop 2 = digitsText n.digits ++ n.suffix.text := by
      rw [htext]
      rfl
    rw [if_neg (not_not_intro h0), if_pos hx, if_pos ⟨h0, hx⟩, hdrop,
      digitsLoop_digits _ hdig (digitIn_suffix 16 _)]
    exact ⟨⟨fun h => absurd h (by decide), fun h => by simp at h⟩, rfl⟩

/-! ## The type of an integer -/

/-- The type that `int_constant` chooses, of a value that `long` holds. -/
def chosen (is_unsigned : Bool) (longness v : ℕ) : Option BasicType :=
  match longness, is_unsigned with
  | 0, false =>
    if (v : ℤ) ≤ Kind.Sint.intType.max then some .Sint
    else if (v : ℤ) ≤ Kind.Uint.intType.max then some .Uint else none
  | 0, true => if (v : ℤ) ≤ Kind.Uint.intType.max then some .Uint else none
  | 1, false => some .Slong
  | 1, true => some .Ulong
  | _, false => some .Slonglong
  | _, true => some .Ulonglong

theorem max_values : Kind.Sint.intType.max = 2147483647 ∧ Kind.Uint.intType.max = 4294967295 ∧
    Kind.Slong.intType.max = 9223372036854775807 ∧
      Kind.Ulong.intType.max = 18446744073709551615 := by
  decide

/-- **The branches of `int_constant`.** -/
theorem int_constant_eq (h : n.Valid) (hmax : (n.value : ℤ) ≤ Kind.Slong.intType.max)
    (ANSIOnly : Bool) :
    (integerLiteral ANSIOnly n.text).map (fun r => (r.node.type, r.node.val)) =
      (chosen (!decide n.ReadAsDecimal || n.suffix.u) n.suffix.l n.value).map
        (fun b => (b, (n.value : ℤ))) := by
  obtain ⟨hpattern, hvalue⟩ := front h
  obtain ⟨hint, huint, hlong, hulong⟩ := max_values
  have hdec : decide (IntegerPattern.of n.text = .decimal_constant) = decide n.ReadAsDecimal :=
    decide_eq_decide.mpr hpattern
  have hv : strtoul n.text = n.value := by
    rw [hvalue]
    exact min_eq_left (by omega)
  have hkeep : ∀ k : Kind, (n.value : ℤ) ≤ k.intType.max → k.intType.convert n.value = n.value :=
    fun _ hk => IntType.convert_of_le (Int.natCast_nonneg _) hk
  unfold integerLiteral int_constant
  rw [hdec, suffixLoop_reverse h, hv]
  dsimp only
  generalize (!decide n.ReadAsDecimal || n.suffix.u) = un
  obtain ⟨l, hl⟩ := n.suffix.l
  dsimp only
  interval_cases l
  · cases un with
    | false =>
      unfold chosen
      by_cases hs : (n.value : ℤ) ≤ Kind.Sint.intType.max
      · rw [if_pos ⟨rfl, rfl, hs⟩, if_pos hs, hkeep .Sint hs]
        rfl
      · rw [if_neg fun h => hs h.2.2, if_neg hs]
        by_cases hu : (n.value : ℤ) ≤ Kind.Uint.intType.max
        · rw [if_pos ⟨rfl, hu⟩, if_pos hu, hkeep .Uint hu]
          rfl
        · rw [if_neg fun h => hu h.2, if_neg hu]
          rfl
    | true =>
      unfold chosen
      rw [if_neg (by simp)]
      by_cases hu : (n.value : ℤ) ≤ Kind.Uint.intType.max
      · rw [if_pos ⟨rfl, hu⟩, if_pos hu, hkeep .Uint hu]
        rfl
      · rw [if_neg fun h => hu h.2, if_neg hu]
        rfl
  · cases un with
    | false =>
      rw [if_neg (by simp), if_neg (by simp), if_pos ⟨rfl, rfl, hmax⟩, hkeep .Slong hmax]
      rfl
    | true =>
      rw [if_neg (by simp), if_neg (by simp), if_neg (by simp), if_pos rfl,
        hkeep .Ulong (by omega)]
      rfl
  · rw [if_neg (by simp), if_neg (by simp), if_neg (by simp), if_neg (by decide),
      if_neg (by decide)]
    cases un <;> rfl

/-- C's type, of a value that `long` holds. -/
theorem type_eq (hmax : (n.value : ℤ) ≤ Kind.Slong.intType.max) :
    n.type = some (match n.suffix.u, (n.suffix.l : ℕ), n.base with
      | false, 0, b =>
        if (n.value : ℤ) ≤ Kind.Sint.intType.max then .Sint
        else if b ≠ .decimal ∧ (n.value : ℤ) ≤ Kind.Uint.intType.max then .Uint
        else .Slong
      | true, 0, _ => if (n.value : ℤ) ≤ Kind.Uint.intType.max then .Uint else .Ulong
      | false, 1, _ => .Slong
      | true, 1, _ => .Ulong
      | false, _, _ => .Slonglong
      | true, _, _ => .Ulonglong) := by
  obtain ⟨hint, huint, hlong, hulong⟩ := max_values
  have hSint : Fits n.value .Sint = decide ((n.value : ℤ) ≤ 2147483647) := by
    refine decide_eq_decide.mpr ⟨fun h => h.2, fun h => ⟨?_, h⟩⟩
    exact le_trans (by decide) (Int.natCast_nonneg _)
  have hUint : Fits n.value .Uint = decide ((n.value : ℤ) ≤ 4294967295) := by
    refine decide_eq_decide.mpr ⟨fun h => h.2, fun h => ⟨?_, h⟩⟩
    exact le_trans (by decide) (Int.natCast_nonneg _)
  have hSlong : Fits n.value .Slong = true :=
    decide_eq_true ⟨le_trans (by decide) (Int.natCast_nonneg _), hmax⟩
  have hSlonglong : Fits n.value .Slonglong = true := hSlong
  have hUlong : Fits n.value .Ulong = true :=
    decide_eq_true ⟨le_trans (by decide) (Int.natCast_nonneg _), hmax.trans (by decide)⟩
  have hUlonglong : Fits n.value .Ulonglong = true := hUlong
  rw [hint, huint]
  unfold type candidates
  obtain ⟨l, hl⟩ := n.suffix.l
  dsimp only
  interval_cases l <;> cases n.suffix.u <;> cases n.base <;>
    simp only [List.find?, hSint, hUint, hSlong, hSlonglong, hUlong, hUlonglong] <;>
    (by_cases h₁ : (n.value : ℤ) ≤ 2147483647 <;> by_cases h₂ : (n.value : ℤ) ≤ 4294967295 <;>
      simp [h₁, h₂])

/-- **When `int_constant` finds C's type.** A literal without `l` is never given
a `long` type, and one that is not decimal never a signed one. -/
def Kept (n : Integer) : Prop :=
  match n.suffix.u, (n.suffix.l : ℕ) with
  | false, 0 =>
    if n.ReadAsDecimal then (n.value : ℤ) ≤ Kind.Sint.intType.max
    else Kind.Sint.intType.max < (n.value : ℤ) ∧ (n.value : ℤ) ≤ Kind.Uint.intType.max
  | false, _ => n.ReadAsDecimal
  | true, 0 => (n.value : ℤ) ≤ Kind.Uint.intType.max
  | true, _ => True

/-- A zero that is read as a decimal constant is one. -/
theorem value_of_readAsDecimal (h : n.ReadAsDecimal) : n.base = .decimal ∨ n.value = 0 := by
  obtain h | ⟨hb, hd⟩ := h
  · exact .inl h
  · right
    unfold value
    rw [hd]
    rfl

theorem base_ne_of_not_readAsDecimal (h : ¬ n.ReadAsDecimal) : n.base ≠ .decimal :=
  fun hb => h (.inl hb)

theorem chosen_eq_type_iff (hmax : (n.value : ℤ) ≤ Kind.Slong.intType.max) :
    (∃ b, chosen (!decide n.ReadAsDecimal || n.suffix.u) n.suffix.l n.value = some b ∧
      n.type = some b) ↔ n.Kept := by
  rw [type_eq hmax]
  obtain ⟨hint, huint, -, -⟩ := max_values
  have hzero := value_of_readAsDecimal (n := n)
  have hbase := base_ne_of_not_readAsDecimal (n := n)
  unfold chosen Kept
  rw [hint, huint]
  obtain ⟨l, hl⟩ := n.suffix.l
  dsimp only
  by_cases hr : n.ReadAsDecimal
  · rw [decide_eq_true hr]
    have hz := hzero hr
    interval_cases l
    · cases n.suffix.u with
      | false =>
        by_cases h₁ : (n.value : ℤ) ≤ 2147483647
        · simp [h₁, hr]
        · by_cases h₂ : (n.value : ℤ) ≤ 4294967295
          · obtain hb | hv := hz
            · simp [h₁, h₂, hr, hb]
            · exact absurd (by rw [hv]; decide) h₁
          · simp [h₁, h₂, hr]
      | true =>
        by_cases h₂ : (n.value : ℤ) ≤ 4294967295 <;> simp [h₂]
    · cases n.suffix.u <;> simp [hr]
    · cases n.suffix.u <;> simp [hr]
  · rw [decide_eq_false hr]
    have hb := hbase hr
    interval_cases l
    · cases n.suffix.u with
      | false =>
        by_cases h₁ : (n.value : ℤ) ≤ 2147483647
        · rw [if_neg hr]
          simp only [h₁]
          simp
          omega
        · by_cases h₂ : (n.value : ℤ) ≤ 4294967295
          · have h₃ : 2147483647 < (n.value : ℤ) := by omega
            simp [h₁, h₂, h₃, hr, hb]
          · simp [h₂, hr]
      | true =>
        by_cases h₂ : (n.value : ℤ) ≤ 4294967295 <;> simp [h₂]
    · cases n.suffix.u <;> simp [hr]
    · cases n.suffix.u <;> simp [hr]

/-- The scanner returns a constant of C's type and value. -/
def Decoded (ANSIOnly : Bool) (n : Integer) : Prop :=
  ∃ r, integerLiteral ANSIOnly n.text = some r ∧ n.type = some r.node.type ∧
    r.node.val = n.value

theorem decoded_iff (ANSIOnly : Bool) (h : n.Valid)
    (hmax : (n.value : ℤ) ≤ Kind.Slong.intType.max) : n.Decoded ANSIOnly ↔ n.Kept := by
  rw [← chosen_eq_type_iff hmax]
  have heq := int_constant_eq h hmax ANSIOnly
  constructor
  · rintro ⟨r, hr, htype, hval⟩
    rw [hr] at heq
    obtain ⟨b, hb, hpair⟩ := Option.map_eq_some_iff.mp heq.symm
    have hrb : b = r.node.type := congrArg Prod.fst hpair
    exact ⟨b, hb, hrb ▸ htype⟩
  · rintro ⟨b, hb, htype⟩
    rw [hb] at heq
    obtain ⟨r, hr, hpair⟩ := Option.map_eq_some_iff.mp heq
    have hrb : r.node.type = b := congrArg Prod.fst hpair
    exact ⟨r, hr, hrb ▸ htype, congrArg Prod.snd hpair⟩

end Integer

/-! ## All literals -/

/-- A literal: the members of a character or string are between its quotes. -/
inductive Literal
  | integer (n : Integer)
  | character (es : List CChar)
  | string (es : List CChar)
  | wideCharacter (es : List CChar)
  | wideString (es : List CChar)

namespace Literal

/-- One that C's grammar admits; an integer's value is one of the target's
`long`. -/
def WellFormed : Literal → Prop
  | integer n => n.Valid ∧ (n.value : ℤ) ≤ Kind.Slong.intType.max
  | character es => es ≠ [] ∧ Literals.WellFormed apostrophe es
  | string es => Literals.WellFormed quotation es
  | wideCharacter es => es ≠ [] ∧ WideWellFormed apostrophe es
  | wideString es => WideWellFormed quotation es

/-- **Decoded as C prescribes.** The value of a character literal with more
than one member is left to the implementation. -/
def Decoded (ANSIOnly : Bool) : Literal → Prop
  | integer n => n.Decoded ANSIOnly
  | character es => ∃ r, char_constant (charText es) = some r ∧
      ∀ e, es = [e] → r.node = schar.convert e.value
  | string es => ∃ r, stringLiteral (stringText es) = some r ∧
      r.node.s = es.map CChar.value ∧ r.node.dim = es.length + 1
  | wideCharacter es => ∃ r, wide_char_const (wideCharText es) = some r ∧
      ∀ e, es = [e] → r.node = wchar.convert e.value
  | wideString es => ∃ r, stringLiteral (wideStringText es) = some r ∧
      r.node.s = es.map CChar.value ∧ r.node.dim = es.length + 1

/-- The literals that are: no escape sequence beyond `char` in a character, no
zero byte in a string, no integer of another type than the ones that
`int_constant` chooses from, no escape sequence in a wide character that
`char_constant` does not take, and no wide string. -/
def Kept : Literal → Prop
  | integer n => n.Kept
  | character es => ∀ e, es = [e] → e.IsEscape → e.value ≤ 127
  | string es => ∀ e ∈ es, e.value ≠ 0
  | wideCharacter es =>
      (∀ e, es.head? = some e → (e.value : ℤ) ≤ Kind.Sint.intType.max) ∧
        ∀ e, es = [e] → e.value ≤ 256
  | wideString _ => False

theorem schar_convert_eq_iff {v : ℕ} (h : v < 256) : (v : ℤ) = schar.convert v ↔ v ≤ 127 := by
  have hconvert : schar.convert v = ((v : ℤ) + 128) % 256 - 128 := by
    show ((v : ℤ) - -128) % 256 + -128 = _
    ring_nf
  rw [hconvert]
  omega

theorem character_decoded_iff {es : List CChar} (hne : es ≠ [])
    (h : Literals.WellFormed apostrophe es) (ANSIOnly : Bool) :
    (character es).Decoded ANSIOnly ↔ (character es).Kept := by
  obtain ⟨e, es, rfl⟩ := List.exists_cons_of_ne_nil hne
  obtain ⟨r, hr, hnode⟩ := char_constant_text h
  have hlt := CChar.value_lt h.1
  constructor
  · rintro ⟨r', hr', hvalue⟩ e' he' hesc
    obtain ⟨rfl, rfl⟩ := List.cons_eq_cons.mp he'
    obtain rfl : r = r' := Option.some.inj (hr.symm.trans hr')
    rw [if_pos hesc] at hnode
    exact (schar_convert_eq_iff hlt).mp (hnode.symm.trans (hvalue e rfl))
  · intro hkept
    refine ⟨r, hr, fun e' he' => ?_⟩
    obtain ⟨rfl, rfl⟩ := List.cons_eq_cons.mp he'
    by_cases hesc : e.IsEscape
    · rw [hnode, if_pos hesc]
      exact (schar_convert_eq_iff hlt).mpr (hkept e rfl hesc)
    · rw [hnode, if_neg hesc]

theorem string_decoded_iff {es : List CChar} (h : Literals.WellFormed quotation es)
    (ANSIOnly : Bool) : (string es).Decoded ANSIOnly ↔ (string es).Kept := by
  obtain ⟨r, hr, hnode⟩ := stringLiteral_text h
  have hkept : (string es).Kept ↔ (es.map CChar.value).takeWhile (· ≠ 0) = es.map CChar.value := by
    rw [List.takeWhile_eq_self_iff]
    show (∀ e ∈ es, e.value ≠ 0) ↔ _
    simp
  rw [hkept]
  constructor
  · rintro ⟨r', hr', hs, -⟩
    obtain rfl : r = r' := Option.some.inj (hr.symm.trans hr')
    rw [hnode] at hs
    exact hs
  · intro hall
    rw [hall] at hnode
    refine ⟨r, hr, ?_, ?_⟩
    · rw [hnode]
      rfl
    · rw [hnode]
      exact congrArg (· + 1) (List.length_map _)

/-- What `wchar_t` makes of a number of 32 bits. -/
theorem wchar_convert_eq {v : ℕ} (h : v < 2 ^ 32) :
    wchar.convert v = if v ≤ 2147483647 then (v : ℤ) else v - 2 ^ 32 := by
  have hconvert : wchar.convert v = ((v : ℤ) + 2147483648) % 4294967296 - 2147483648 := by
    show ((v : ℤ) - -2147483648) % 4294967296 + -2147483648 = _
    ring_nf
  rw [hconvert]
  split_ifs <;> omega

theorem wideValue_lt {quote : ℕ} {e : CChar} (h : e.ValidWide quote) : e.value < 2 ^ 32 := by
  cases e with
  | plain c => exact h.2.1.trans (by decide)
  | simple e => cases e <;> decide
  | octal ds =>
    refine (continued_lt ds h.2.2 0).trans_le ?_
    rw [Nat.zero_add, one_mul]
    exact (Nat.pow_le_pow_right (by decide) h.2.1).trans (by decide)
  | hex ds => exact h.2

/-- `char_constant` gives a wide character its value, where it gives it one. -/
theorem wide_value_iff {v : ℕ} (hv : v < 2 ^ 32) :
    (if v ≤ 256 then (v : ℤ) else byte 'X') = wchar.convert v ↔ v ≤ 256 := by
  have hX : (byte 'X' : ℤ) = 88 := rfl
  rw [wchar_convert_eq hv, hX]
  split_ifs <;> omega

theorem wideCharacter_decoded_iff {es : List CChar} (hne : es ≠ [])
    (h : WideWellFormed apostrophe es) (ANSIOnly : Bool) :
    (wideCharacter es).Decoded ANSIOnly ↔ (wideCharacter es).Kept := by
  obtain ⟨e, es, rfl⟩ := List.exists_cons_of_ne_nil hne
  have hint : Kind.Sint.intType.max = 2147483647 := Integer.max_values.1
  have hconst := wide_char_const_text h
  have hvalue := wide_value_iff (wideValue_lt h.1)
  unfold Decoded Kept
  rw [hint]
  by_cases hover : 2147483647 < e.value
  · rw [if_pos hover] at hconst
    refine iff_of_false ?_ fun hk => ?_
    · rintro ⟨r, hr, -⟩
      cases hconst.symm.trans hr
    · have := hk.1 e rfl
      omega
  · rw [if_neg hover] at hconst
    obtain ⟨r, hr, hnode⟩ := hconst
    constructor
    · rintro ⟨r', hr', hdec⟩
      obtain rfl := Option.some.inj (hr.symm.trans hr')
      refine ⟨fun e' he' => ?_, fun e' he' => ?_⟩
      · obtain rfl := Option.some.inj he'
        omega
      · obtain ⟨rfl, rfl⟩ := List.cons_eq_cons.mp he'
        exact hvalue.mp (hnode.symm.trans (hdec e rfl))
    · rintro ⟨-, hsmall⟩
      refine ⟨r, hr, fun e' he' => ?_⟩
      obtain ⟨rfl, rfl⟩ := List.cons_eq_cons.mp he'
      exact hnode.trans (hvalue.mpr (hsmall e rfl))

theorem wideString_not_decoded {es : List CChar} (h : WideWellFormed quotation es)
    (ANSIOnly : Bool) : ¬ (wideString es).Decoded ANSIOnly := by
  rintro ⟨r, hr, hs, -⟩
  exact wideStringLiteral_ne h hr hs

/-- **The literals that the scanner decodes as C prescribes.** -/
theorem literal_decoded_iff (ANSIOnly : Bool) (l : Literal) (h : l.WellFormed) :
    l.Decoded ANSIOnly ↔ l.Kept := by
  cases l with
  | integer n => exact n.decoded_iff ANSIOnly h.1 h.2
  | character es => exact character_decoded_iff h.1 h.2 ANSIOnly
  | string es => exact string_decoded_iff h ANSIOnly
  | wideCharacter es => exact wideCharacter_decoded_iff h.1 h.2 ANSIOnly
  | wideString es => exact iff_of_false (wideString_not_decoded h ANSIOnly) id

/-- The string literal `"a\0b"`. -/
def embeddedNul : Literal :=
  string [.plain (byte 'a'), .octal [⟨0, false⟩], .plain (byte 'b')]

theorem zero_lt_three : 0 < 3 := Nat.zero_lt_succ 2

/-- The integer literal `0x10`. -/
def sixteen : Literal :=
  integer ⟨.hexadecimal, false, [⟨1, false⟩, ⟨0, false⟩],
    ⟨false, ⟨0, zero_lt_three⟩, true, false, false⟩⟩

theorem embeddedNul_wellFormed : embeddedNul.WellFormed := by
  have hplain : ∀ c : Char, (byte c ≠ 0 ∧ byte c < 256 ∧ byte c ≠ quotation ∧
      byte c ≠ backslash ∧ byte c ≠ byte '\n') → (CChar.plain (byte c)).Valid quotation :=
    fun _ h => h
  refine ⟨hplain 'a' (by decide), trivial, ⟨by decide, by decide, by decide, by decide⟩, .inr ?_,
    hplain 'b' (by decide), trivial, trivial⟩
  intro d hd
  rcases d with ⟨v, c⟩
  revert v c
  decide

/-- **A string with a zero byte is cut**: it is decoded to one byte. -/
theorem literal_decoded_iff_embeddedNul :
    embeddedNul.WellFormed ∧ (embeddedNul.Decoded false ↔ embeddedNul.Kept) :=
  ⟨embeddedNul_wellFormed, literal_decoded_iff false embeddedNul embeddedNul_wellFormed⟩

/-- **`0x10` is given the type `unsigned`**, where it is an `int`. -/
theorem hexadecimal_is_unsigned : sixteen.WellFormed ∧ ¬ sixteen.Decoded false := by
  refine ⟨⟨⟨by decide, by decide⟩, by decide⟩, ?_⟩
  rintro ⟨r, hr, htype, -⟩
  have hscan : integerLiteral false [48, 120, 49, 48] = some ⟨⟨.Uint, .Uint, 16⟩, [], []⟩ := by
    decide
  obtain rfl := Option.some.inj (hscan.symm.trans hr)
  exact absurd htype (by decide)

end Literal

end Cilk.Literals
