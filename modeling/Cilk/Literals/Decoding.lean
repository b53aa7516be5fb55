import Cilk.Literals.Meaning

/-!
# Decoding

What the scanner makes of a literal is compared with what C prescribes. The
loops over digits are followed first, then one escape sequence, then the buffer
that a string is decoded in, and last the choice of an integer's type.

The two agree unless a character's escape sequence is beyond the target's
`char`, a string has a zero byte, or an integer is one of those for which
`int_constant` looks at too short a list of types. Of a wide string one more
character is decoded than it has, its own quote.
-/

namespace Cilk.Literals

open ConstFold

/-! ## Digits -/

/-- A digit is read as it is written. -/
theorem hex_digit_text (d : Digit) : hex_digit d.text = some (d.val : ℕ) := by
  rcases d with ⟨v, c⟩
  revert v c
  decide

theorem octal_digit_text {d : Digit} (h : (d.val : ℕ) < 8) : octal_digit d.text = some (d.val : ℕ) := by
  rcases d with ⟨v, c⟩
  revert v c
  decide

/-- A digit of the base is read as it is written. -/
theorem digitIn_text {d : Digit} {base : ℕ} (h : (d.val : ℕ) < base) :
    digitIn base d.text = some (d.val : ℕ) := by
  unfold digitIn
  rw [hex_digit_text]
  exact if_pos (decide_eq_true h)

/-- A byte that no digit is written as is none. -/
theorem hex_digit_eq_none {c : ℕ} (h : ∀ d : Digit, c ≠ d.text) : hex_digit c = none := by
  unfold hex_digit
  rw [if_neg, if_neg, if_neg]
  · rintro ⟨h₁, h₂⟩
    have h₁ : 65 ≤ c := h₁
    have h₂ : c ≤ 70 := h₂
    interval_cases c
    exacts [h ⟨10, true⟩ rfl, h ⟨11, true⟩ rfl, h ⟨12, true⟩ rfl, h ⟨13, true⟩ rfl,
      h ⟨14, true⟩ rfl, h ⟨15, true⟩ rfl]
  · rintro ⟨h₁, h₂⟩
    have h₁ : 97 ≤ c := h₁
    have h₂ : c ≤ 102 := h₂
    interval_cases c
    exacts [h ⟨10, false⟩ rfl, h ⟨11, false⟩ rfl, h ⟨12, false⟩ rfl, h ⟨13, false⟩ rfl,
      h ⟨14, false⟩ rfl, h ⟨15, false⟩ rfl]
  · rintro ⟨h₁, h₂⟩
    have h₁ : 48 ≤ c := h₁
    have h₂ : c ≤ 57 := h₂
    interval_cases c
    exacts [h ⟨0, true⟩ rfl, h ⟨1, true⟩ rfl, h ⟨2, true⟩ rfl, h ⟨3, true⟩ rfl, h ⟨4, true⟩ rfl,
      h ⟨5, true⟩ rfl, h ⟨6, true⟩ rfl, h ⟨7, true⟩ rfl, h ⟨8, true⟩ rfl, h ⟨9, true⟩ rfl]

/-- Where no octal digit is written, none is read. -/
theorem octal_digit_eq_none {c : ℕ} (h : ∀ d : Digit, (d.val : ℕ) < 8 → c ≠ d.text) :
    octal_digit c = none := by
  unfold octal_digit
  rw [if_neg]
  rintro ⟨h₁, h₂⟩
  have h₁ : 48 ≤ c := h₁
  have h₂ : c ≤ 55 := h₂
  interval_cases c
  exacts [h ⟨0, true⟩ (by decide) rfl, h ⟨1, true⟩ (by decide) rfl, h ⟨2, true⟩ (by decide) rfl,
    h ⟨3, true⟩ (by decide) rfl, h ⟨4, true⟩ (by decide) rfl, h ⟨5, true⟩ (by decide) rfl,
    h ⟨6, true⟩ (by decide) rfl, h ⟨7, true⟩ (by decide) rfl]

/-- The number that more digits make of `value`. -/
def continued (base value : ℕ) (digits : List Digit) : ℕ :=
  digits.foldl (fun value d => base * value + d.val) value

/-- One digit more. -/
theorem continued_cons (base value : ℕ) (d : Digit) (ds : List Digit) :
    continued base value (d :: ds) = continued base (base * value + d.val) ds := rfl

/-- **More digits make no smaller number.** -/
theorem le_continued {base : ℕ} (h : 1 ≤ base) (ds : List Digit) (value : ℕ) :
    value ≤ continued base value ds := by
  induction ds generalizing value with
  | nil => exact le_rfl
  | cons d ds ih =>
    have hstep : value ≤ base * value + d.val :=
      (Nat.le_mul_of_pos_left value h).trans (Nat.le_add_right _ _)
    exact hstep.trans (ih _)

/-- Digits make a number of as many places. -/
theorem continued_lt {base : ℕ} (ds : List Digit) (hds : ∀ d ∈ ds, (d.val : ℕ) < base)
    (value : ℕ) : continued base value ds < (value + 1) * base ^ ds.length := by
  induction ds generalizing value with
  | nil => simp [continued]
  | cons d ds ih =>
    have hd := hds d List.mem_cons_self
    refine (ih (fun e he => hds e (List.mem_cons_of_mem _ he)) (base * value + d.val)).trans_le ?_
    rw [List.length_cons, pow_succ', ← mul_assoc]
    refine Nat.mul_le_mul_right _ ?_
    rw [Nat.succ_mul, Nat.mul_comm value]
    omega

/-- **The hexadecimal loop** reads all digits that there are. -/
theorem hexLoop_digits (ds : List Digit) {t : List ℕ} (ht : hex_digit (at' t 0) = none)
    (val i : ℕ) (hfit : continued 16 val ds ≤ 2147483647) :
    hexLoop (digitsText ds ++ t) val i = some (continued 16 val ds, i + ds.length) := by
  induction ds generalizing val i with
  | nil =>
    cases t with
    | nil => rfl
    | cons c t =>
      have hc : hex_digit c = none := ht
      show hexLoop (c :: t) val i = _
      unfold hexLoop
      rw [hc]
      rfl
  | cons d ds ih =>
    have hle := le_continued (by decide : 1 ≤ 16) ds (16 * val + d.val)
    rw [continued_cons] at hfit
    have hint : ((16 * val + d.val : ℕ) : ℤ) ≤ Kind.Sint.intType.max := by
      have hmax : Kind.Sint.intType.max = 2147483647 := by decide
      omega
    show hexLoop (d.text :: (digitsText ds ++ t)) val i = _
    unfold hexLoop
    rw [hex_digit_text]
    show (if _ then hexLoop _ _ _ else none) = _
    rw [if_pos hint, ih _ _ hfit, continued_cons, List.length_cons]
    congr 2
    omega

/-- **Too many hexadecimal digits end the run.** -/
theorem hexLoop_overflow (ds : List Digit) (t : List ℕ) (val i : ℕ) (hval : val ≤ 2147483647)
    (hover : 2147483647 < continued 16 val ds) : hexLoop (digitsText ds ++ t) val i = none := by
  induction ds generalizing val i with
  | nil => exact absurd hover (not_lt.mpr hval)
  | cons d ds ih =>
    have hmax : Kind.Sint.intType.max = 2147483647 := by decide
    show hexLoop (d.text :: (digitsText ds ++ t)) val i = _
    unfold hexLoop
    rw [hex_digit_text]
    show (if _ then hexLoop _ _ _ else none) = _
    split
    case isTrue hint => exact ih _ _ (by omega) hover
    case isFalse => rfl

/-- **The octal loop** reads all digits that there are, three at most. -/
theorem octalLoop_digits (ds : List Digit) (hds : ∀ d ∈ ds, (d.val : ℕ) < 8) {t : List ℕ}
    (val i : ℕ) (hi : i + ds.length ≤ 4)
    (ht : i + ds.length = 4 ∨ octal_digit (at' t 0) = none) :
    octalLoop (digitsText ds ++ t) val i = (continued 8 val ds, i + ds.length) := by
  induction ds generalizing val i with
  | nil =>
    cases t with
    | nil => rfl
    | cons c t =>
      show octalLoop (c :: t) val i = _
      unfold octalLoop
      cases hc : octal_digit c with
      | none => rfl
      | some tmp =>
        have hi4 : ¬ i < 4 := by
          obtain h | h := ht
          · exact not_lt_of_ge (le_of_eq h.symm)
          · exact absurd (h.symm.trans hc) (by simp)
        exact if_neg hi4
  | cons d ds ih =>
    have hd := hds d List.mem_cons_self
    rw [List.length_cons] at hi ht
    show octalLoop (d.text :: (digitsText ds ++ t)) val i = _
    unfold octalLoop
    rw [octal_digit_text hd]
    show (if i < 4 then octalLoop _ _ _ else _) = _
    rw [if_pos (by omega), ih (fun e he => hds e (List.mem_cons_of_mem _ he)) _ _ (by omega)
      (ht.imp_left fun h => by omega), continued_cons, List.length_cons]
    congr 1
    omega

/-- The loop of `strtoul` reads all digits of the base. -/
theorem digitsLoop_digits {base : ℕ} (ds : List Digit) (hds : ∀ d ∈ ds, (d.val : ℕ) < base)
    {t : List ℕ} (ht : digitIn base (at' t 0) = none) (val : ℕ) :
    digitsLoop base (digitsText ds ++ t) val = continued base val ds := by
  induction ds generalizing val with
  | nil =>
    cases t with
    | nil => rfl
    | cons c t =>
      have hc : digitIn base c = none := ht
      show digitsLoop base (c :: t) val = _
      unfold digitsLoop
      rw [hc]
      rfl
  | cons d ds ih =>
    show digitsLoop base (d.text :: (digitsText ds ++ t)) val = _
    unfold digitsLoop
    rw [digitIn_text (hds d List.mem_cons_self)]
    exact ih (fun e he => hds e (List.mem_cons_of_mem _ he)) _

/-! ## One escape sequence -/

/-- A simple escape sequence is read as what it stands for. -/
theorem simple_escape_letter (e : SimpleEscape) : simple_escape e.letter = some e.value := by
  cases e <;> decide

theorem simple_escape_digit {d : Digit} (h : (d.val : ℕ) < 8) : simple_escape d.text = none := by
  rcases d with ⟨v, c⟩
  revert v c
  decide

theorem text_ne_x (d : Digit) : d.text ≠ byte 'x' := by
  rcases d with ⟨v, c⟩
  revert v c
  decide

namespace CChar

/-- No member of a literal is empty. -/
theorem text_length_pos (e : CChar) : 0 < e.text.length := by
  cases e <;> exact Nat.succ_pos _

variable {quote : ℕ}

/-- A member of a literal stands for a byte. -/
theorem value_lt {e : CChar} (h : e.Valid quote) : e.value < 256 := by
  cases e with
  | plain c => exact h.2.1
  | simple e => cases e <;> decide
  | octal ds => exact h.2.2.2
  | hex ds => exact h.2

/-- An escape sequence of a narrow literal is one of a wide one. -/
theorem Valid.wide {e : CChar} (h : e.Valid quote) (hesc : e.IsEscape) : e.ValidWide quote := by
  cases e with
  | plain c => exact hesc.elim
  | simple e => exact trivial
  | octal ds => exact ⟨h.1, h.2.1, h.2.2.1⟩
  | hex ds => exact ⟨h.1, h.2.trans (by decide)⟩

/-- A member of a wide literal that stands for a byte may stand in any literal.
-/
theorem ValidWide.narrow {e : CChar} (h : e.ValidWide quote) (hlt : e.value < 256) :
    e.Valid quote := by
  cases e with
  | plain c => exact ⟨h.1, hlt, h.2.2⟩
  | simple e => exact trivial
  | octal ds => exact ⟨h.1, h.2.1, h.2.2, hlt⟩
  | hex ds => exact ⟨h.1, hlt⟩

theorem text_octal_length (ds : List Digit) : (octal ds).text.length = 1 + ds.length := by
  show (digitsText ds).length + 1 = _
  rw [digitsText, List.length_map, Nat.add_comm]

theorem text_hex_length (ds : List Digit) : (hex ds).text.length = 2 + ds.length := by
  show (digitsText ds).length + 1 + 1 = _
  rw [digitsText, List.length_map]
  omega

/-- An octal escape sequence is read to its end; its number may be too large. -/
theorem parse_octal {ds : List Digit} (h : (octal ds).ValidWide quote) {t : List ℕ}
    (ht : (octal ds).EndsBefore (at' t 0)) :
    parse_char_constant ((octal ds).text ++ t) =
      if 256 < (octal ds).value then some ⟨-1, 2, ["explicit octal character out of range"]⟩
      else some ⟨(octal ds).value, (octal ds).text.length, []⟩ := by
  obtain ⟨hne, hlen, hdig⟩ := h
  obtain ⟨d, ds', rfl⟩ := List.exists_cons_of_ne_nil hne
  have hd := hdig d List.mem_cons_self
  have h0 : at' ((octal (d :: ds')).text ++ t) 0 = Literals.backslash := rfl
  have h1 : at' ((octal (d :: ds')).text ++ t) 1 = d.text := rfl
  have hend : 1 + (d :: ds').length = 4 ∨ octal_digit (at' t 0) = none := by
    obtain h | h := ht
    · exact .inl (by omega)
    · exact .inr (octal_digit_eq_none h)
  have hloop := octalLoop_digits (d :: ds') hdig 0 1 (by omega) hend
  have hdrop : ((octal (d :: ds')).text ++ t).drop 1 = digitsText (d :: ds') ++ t := rfl
  unfold parse_char_constant
  rw [h0, h1, if_neg (not_not_intro rfl), simple_escape_digit hd]
  dsimp only
  rw [if_neg (text_ne_x d), octal_digit_text hd, hdrop, hloop, text_octal_length]
  rfl

/-- A hexadecimal one is, unless its number leaves `int`. -/
theorem parse_hex {ds : List Digit} (h : (hex ds).ValidWide quote) {t : List ℕ}
    (ht : (hex ds).EndsBefore (at' t 0)) :
    parse_char_constant ((hex ds).text ++ t) =
      if 2147483647 < (hex ds).value then none
      else if 256 < (hex ds).value then
        some ⟨-1, (hex ds).text.length, ["explicit hex character (\\x) out of range"]⟩
      else some ⟨(hex ds).value, (hex ds).text.length, []⟩ := by
  have h0 : at' ((hex ds).text ++ t) 0 = Literals.backslash := rfl
  have h1 : at' ((hex ds).text ++ t) 1 = byte 'x' := rfl
  have hdrop : ((hex ds).text ++ t).drop 2 = digitsText ds ++ t := rfl
  have hpos := List.length_pos_of_ne_nil h.1
  unfold parse_char_constant
  rw [h0, h1, if_neg (not_not_intro rfl), show simple_escape (byte 'x') = none from by decide]
  dsimp only
  rw [if_pos rfl, hdrop]
  split_ifs with hover hbig
  · rw [hexLoop_overflow ds t 0 2 (Nat.zero_le _) hover]
    rfl
  all_goals
    rw [hexLoop_digits ds (hex_digit_eq_none ht) 0 2 (not_lt.mp hover), text_hex_length]
    show (if 2 + ds.length = 2 then _ else _) = _
    rw [if_neg (by omega)]
  · exact if_pos hbig
  · exact if_neg hbig

/-- **An escape sequence is read as C has it**, and over where C has it over. -/
theorem parse_escape {e : CChar} (he : e.ValidWide quote) (hesc : e.IsEscape) {t : List ℕ}
    (ht : e.EndsBefore (at' t 0)) (hval : e.value ≤ 256) :
    parse_char_constant (e.text ++ t) = some ⟨e.value, e.text.length, []⟩ := by
  cases e with
  | plain c => exact hesc.elim
  | simple e =>
    have h0 : at' ((simple e).text ++ t) 0 = Literals.backslash := rfl
    have h1 : at' ((simple e).text ++ t) 1 = e.letter := rfl
    unfold parse_char_constant
    rw [h0, h1, if_neg (not_not_intro rfl), simple_escape_letter]
    rfl
  | octal ds => rw [parse_octal he ht, if_neg (not_lt.mpr hval)]
  | hex ds => rw [parse_hex he ht, if_neg (by omega), if_neg (not_lt.mpr hval)]

/-- **An escape sequence is read as it is written**, up to where it ends. -/
theorem parse_text {e : CChar} (he : e.Valid quote) (hesc : e.IsEscape) {t : List ℕ}
    (ht : e.EndsBefore (at' t 0)) :
    parse_char_constant (e.text ++ t) = some ⟨e.value, e.text.length, []⟩ :=
  parse_escape (he.wide hesc) hesc ht (value_lt he).le

/-- An escape sequence whose number `char_constant` does not take is read as
`-1`, or ends the run. -/
theorem parse_beyond {e : CChar} (he : e.ValidWide quote) (hesc : e.IsEscape) {t : List ℕ}
    (ht : e.EndsBefore (at' t 0)) (hval : 256 < e.value) :
    if 2147483647 < e.value then parse_char_constant (e.text ++ t) = none
    else ∃ p, parse_char_constant (e.text ++ t) = some p ∧ p.val = -1 := by
  cases e with
  | plain c => exact hesc.elim
  | simple e => cases e <;> exact absurd hval (by decide)
  | octal ds =>
    have hlt : (octal ds).value < 8 ^ 3 :=
      (continued_lt ds he.2.2 0).trans_le (by
        rw [Nat.zero_add, one_mul]
        exact Nat.pow_le_pow_right (by decide) he.2.1)
    rw [if_neg (by omega), parse_octal he ht, if_pos hval]
    exact ⟨_, rfl, rfl⟩
  | hex ds =>
    rw [parse_hex he ht]
    split_ifs
    · rfl
    · exact ⟨_, rfl, rfl⟩

/-- What follows the text of the next members ends an escape sequence too, if
it starts with no digit. -/
theorem EndsBefore.append {e : CChar} {t : List ℕ} (h : e.EndsBefore (at' t 0)) {u : List ℕ}
    (hu : ∀ d : Digit, at' u 0 ≠ d.text) : e.EndsBefore (at' (t ++ u) 0) := by
  cases t with
  | cons c t => exact h
  | nil =>
    cases e with
    | plain c => exact trivial
    | simple e => exact trivial
    | octal ds => exact .inr fun d _ => hu d
    | hex ds => exact hu

end CChar

/-! ## Characters -/

/-- No digit is an apostrophe. -/
theorem apostrophe_ne_text (d : Digit) : apostrophe ≠ d.text := by
  rcases d with ⟨v, c⟩
  revert v c
  decide

theorem zero_ne_text (d : Digit) : 0 ≠ d.text := by
  rcases d with ⟨v, c⟩
  revert v c
  decide

/-- The text of a character literal. -/
def charText (es : List CChar) : List ℕ := apostrophe :: (textOf es ++ [apostrophe])

/-- The text of a literal is that of its members. -/
theorem textOf_cons (e : CChar) (es : List CChar) : textOf (e :: es) = e.text ++ textOf es := rfl

/-- **The value of a character literal** is that of its first member: of a
plain one the `char`, of an escape sequence the byte. -/
theorem char_constant_text {e : CChar} {es : List CChar} (h : WellFormed apostrophe (e :: es)) :
    ∃ r, char_constant (charText (e :: es)) = some r ∧
      r.node = if e.IsEscape then (e.value : ℤ) else schar.convert e.value := by
  obtain ⟨he, hend, -⟩ := h
  unfold char_constant
  have h0 : at' (charText (e :: es)) 0 = apostrophe := rfl
  rw [h0, if_neg (not_not_intro rfl)]
  have hdrop : (charText (e :: es)).drop 1 = e.text ++ (textOf es ++ [apostrophe]) := by
    show textOf (e :: es) ++ [apostrophe] = _
    rw [textOf_cons, List.append_assoc]
  by_cases hesc : e.IsEscape
  · have h1 : at' (charText (e :: es)) 1 = backslash := by
      cases e with
      | plain c => exact hesc.elim
      | simple _ => rfl
      | octal _ => rfl
      | hex _ => rfl
    have hparse := CChar.parse_text he hesc
      (hend.append (u := [apostrophe]) fun d => apostrophe_ne_text d)
    rw [if_pos h1, hdrop, hparse, if_pos hesc]
    refine ⟨_, rfl, ?_⟩
    show (if (e.value : ℤ) < 0 then (byte 'X' : ℤ) else e.value) = e.value
    exact if_neg (by omega)
  · obtain ⟨c, rfl⟩ : ∃ c, e = .plain c := by
      cases e with
      | plain c => exact ⟨c, rfl⟩
      | simple _ => exact absurd trivial hesc
      | octal _ => exact absurd trivial hesc
      | hex _ => exact absurd trivial hesc
    have h1 : at' (charText (.plain c :: es)) 1 = c := rfl
    rw [h1, if_neg he.2.2.2.1, if_neg hesc]
    exact ⟨_, rfl, rfl⟩

/-- The text of a wide character literal. -/
def wideCharText (es : List CChar) : List ℕ := byte 'L' :: charText es

/-- **The value of a wide character literal** is that of its first member too,
as far as `char_constant` goes: an escape sequence beyond 256 is taken for an
`X`, one beyond `int` ends the run. -/
theorem wide_char_const_text {e : CChar} {es : List CChar}
    (h : WideWellFormed apostrophe (e :: es)) :
    if 2147483647 < e.value then wide_char_const (wideCharText (e :: es)) = none
    else ∃ r, wide_char_const (wideCharText (e :: es)) = some r ∧
      r.node = if e.value ≤ 256 then (e.value : ℤ) else byte 'X' := by
  obtain ⟨he, hend, -⟩ := h
  have hwide : wide_char_const (wideCharText (e :: es)) = char_constant (charText (e :: es)) := rfl
  have h0 : at' (charText (e :: es)) 0 = apostrophe := rfl
  have hdrop : (charText (e :: es)).drop 1 = e.text ++ (textOf es ++ [apostrophe]) := by
    show textOf (e :: es) ++ [apostrophe] = _
    rw [textOf_cons, List.append_assoc]
  rw [hwide]
  unfold char_constant
  rw [h0, if_neg (not_not_intro rfl)]
  by_cases hesc : e.IsEscape
  · have h1 : at' (charText (e :: es)) 1 = backslash := by
      cases e with
      | plain c => exact hesc.elim
      | simple _ => rfl
      | octal _ => rfl
      | hex _ => rfl
    have hends := hend.append (u := [apostrophe]) fun d => apostrophe_ne_text d
    rw [if_pos h1, hdrop]
    by_cases hval : e.value ≤ 256
    · rw [if_neg (by omega), CChar.parse_escape he hesc hends hval, if_pos hval]
      refine ⟨_, rfl, ?_⟩
      show (if (e.value : ℤ) < 0 then (byte 'X' : ℤ) else e.value) = e.value
      exact if_neg (by omega)
    · have hparse := CChar.parse_beyond he hesc hends (not_le.mp hval)
      split_ifs at hparse ⊢ with hover
      · rw [hparse]
        rfl
      · obtain ⟨p, hp, hneg⟩ := hparse
        rw [hp]
        refine ⟨_, rfl, ?_⟩
        show (if p.val < 0 then (byte 'X' : ℤ) else p.val) = byte 'X'
        rw [hneg]
        rfl
  · obtain ⟨c, rfl⟩ : ∃ c, e = .plain c := by
      cases e with
      | plain c => exact ⟨c, rfl⟩
      | simple _ => exact absurd trivial hesc
      | octal _ => exact absurd trivial hesc
      | hex _ => exact absurd trivial hesc
    have h1 : at' (charText (.plain c :: es)) 1 = c := rfl
    have hlt : c < 128 := he.2.1
    have hvalue : (CChar.plain c).value = c := rfl
    have hover : ¬ 2147483647 < c := by omega
    have hsmall : c ≤ 256 := by omega
    rw [hvalue, h1, if_neg he.2.2.2.1, if_neg hover]
    refine ⟨_, rfl, ?_⟩
    rw [if_pos hsmall]
    show ((c : ℤ) - -128) % 256 + -128 = c
    omega

/-! ## Strings -/

/-- The byte behind a text. -/
theorem at'_append (l m : List ℕ) : at' (l ++ m) l.length = at' m 0 := by
  unfold at'
  rw [List.getD_append_right _ _ _ _ le_rfl, Nat.sub_self]

/-- The byte behind a text is written. -/
theorem set_append_length (l m : List ℕ) (hm : m ≠ []) (v : ℕ) :
    (l ++ m).set l.length v = (l ++ [v]) ++ m.tail := by
  obtain ⟨a, m, rfl⟩ := List.exists_cons_of_ne_nil hm
  rw [List.set_append_right _ _ le_rfl, Nat.sub_self, List.append_assoc]
  rfl

/-- **The cursors do not collide.** The buffer holds what was written, then
what was read and is still there, then the rest of the text: the loop writes
the bytes of all members, one after the other. -/
theorem convertLoop_text (es : List CChar) (hes : WellFormed quotation es) (out junk tail : List ℕ)
    (fuel : ℕ) (hfuel : es.length < fuel) :
    ∃ rest, convertLoop fuel (out ++ (junk ++ (textOf es ++ 0 :: tail)))
      (out.length + junk.length) out.length [] =
        some ⟨out ++ (es.map CChar.value ++ 0 :: rest), [], []⟩ := by
  induction es generalizing out junk fuel with
  | nil =>
    obtain ⟨fuel, rfl⟩ : ∃ n, fuel = n + 1 := ⟨fuel - 1, by omega⟩
    have hread : at' (out ++ (junk ++ (textOf [] ++ 0 :: tail))) (out.length + junk.length) = 0 := by
      rw [← List.append_assoc, ← List.length_append, at'_append]
      rfl
    refine ⟨(junk ++ 0 :: tail).tail, ?_⟩
    unfold convertLoop
    rw [if_pos hread, set_append_length _ _ (by simp)]
    rw [List.append_assoc]
    rfl
  | cons e es ih =>
    obtain ⟨he, hend, hes⟩ := hes
    obtain ⟨fuel, rfl⟩ : ∃ n, fuel = n + 1 := ⟨fuel - 1, by omega⟩
    have hpos := e.text_length_pos
    -- what is left of the buffer when a byte is written for this member
    have hwrite : ∀ v, (out ++ (junk ++ (textOf (e :: es) ++ 0 :: tail))).set out.length v =
        (out ++ [v]) ++ ((junk ++ e.text).tail ++ (textOf es ++ 0 :: tail)) := by
      intro v
      have hne : junk ++ e.text ≠ [] := List.ne_nil_of_length_pos (by
        rw [List.length_append]
        omega)
      rw [set_append_length _ _ (by simp [textOf]), textOf_cons, List.append_assoc e.text,
        ← List.append_assoc junk, List.tail_append_of_ne_nil hne]
    have hread : at' (out ++ (junk ++ (textOf (e :: es) ++ 0 :: tail)))
        (out.length + junk.length) = at' e.text 0 := by
      rw [← List.append_assoc, ← List.length_append, at'_append, textOf_cons]
      cases e <;> rfl
    have hnext : out.length + junk.length + e.text.length =
        (out ++ [e.value]).length + (junk ++ e.text).tail.length := by
      rw [List.length_append, List.length_tail, List.length_append, List.length_singleton]
      omega
    obtain ⟨rest, hrest⟩ := ih hes (out ++ [e.value]) (junk ++ e.text).tail fuel
      (by rw [List.length_cons] at hfuel; omega)
    refine ⟨rest, ?_⟩
    have hdone : (out ++ [e.value]) ++ (es.map CChar.value ++ 0 :: rest) =
        out ++ ((e :: es).map CChar.value ++ 0 :: rest) := by
      rw [List.append_assoc]
      rfl
    rw [hdone] at hrest
    unfold convertLoop
    rw [hread]
    by_cases hesc : e.IsEscape
    · have hfirst : at' e.text 0 = backslash := by
        cases e with
        | plain c => exact hesc.elim
        | simple _ => rfl
        | octal _ => rfl
        | hex _ => rfl
      have hdrop : (out ++ (junk ++ (textOf (e :: es) ++ 0 :: tail))).drop
          (out.length + junk.length) = e.text ++ (textOf es ++ 0 :: tail) := by
        rw [← List.append_assoc, ← List.length_append, List.drop_left, textOf_cons,
          List.append_assoc]
      have hparse := CChar.parse_text he hesc
        (hend.append (u := 0 :: tail) fun d => zero_ne_text d)
      have hlt := CChar.value_lt he
      have hbyte : (if (e.value : ℤ) < 0 then byte 'X' else ((e.value : ℤ) % 256).toNat) =
          e.value := by
        rw [if_neg (by omega)]
        omega
      rw [if_neg (by rw [hfirst]; decide), if_pos hfirst, hdrop, hparse]
      show convertLoop fuel (List.set _ _ (if (e.value : ℤ) < 0 then _ else _)) _ _ _ = _
      have hlen : out.length + 1 = (out ++ [e.value]).length := by
        rw [List.length_append, List.length_singleton]
      rw [hbyte, hwrite, hnext, hlen]
      exact hrest
    · obtain ⟨c, rfl⟩ : ∃ c, e = .plain c := by
        cases e with
        | plain c => exact ⟨c, rfl⟩
        | simple _ => exact absurd trivial hesc
        | octal _ => exact absurd trivial hesc
        | hex _ => exact absurd trivial hesc
      have hfirst : at' (CChar.plain c).text 0 = c := rfl
      rw [hfirst, if_neg he.1, if_neg he.2.2.2.1, hwrite]
      have hnext' : out.length + junk.length + 1 =
        (out ++ [c]).length + (junk ++ (CChar.plain c).text).tail.length := hnext
      have hlen : out.length + 1 = (out ++ [c]).length := by
        rw [List.length_append, List.length_singleton]
      rw [hnext', hlen]
      exact hrest

/-- The text of a string literal. -/
def stringText (es : List CChar) : List ℕ := quotation :: (textOf es ++ [quotation])

/-- A literal is no shorter than it has members. -/
theorem length_le_textOf (es : List CChar) : es.length ≤ (textOf es).length := by
  induction es with
  | nil => exact le_rfl
  | cons e es ih =>
    have := e.text_length_pos
    rw [textOf_cons, List.length_append, List.length_cons]
    omega

/-- **The bytes of a string literal** are those of its members up to the first
that is zero. -/
theorem stringLiteral_text {es : List CChar} (h : WellFormed quotation es) :
    ∃ r, stringLiteral (stringText es) = some r ∧
      r.node = MakeString ((es.map CChar.value).takeWhile (· ≠ 0)) := by
  have hbuffer : ((stringText es).set ((stringText es).length - 1) 0).drop 1 =
      textOf es ++ [0] := by
    have hlen : (stringText es).length - 1 = (quotation :: textOf es).length := by
      show (textOf es ++ [quotation]).length = (textOf es).length + 1
      exact List.length_append
    have hset : (stringText es).set (quotation :: textOf es).length 0 =
        (quotation :: textOf es) ++ [0] :=
      (set_append_length (quotation :: textOf es) [quotation] (by simp) 0).trans
        (List.append_nil _)
    rw [hlen, hset]
    rfl
  obtain ⟨rest, hrest⟩ := convertLoop_text es h [] [] [] ((textOf es ++ [0]).length + 1) (by
    have := length_le_textOf es
    rw [List.length_append]
    omega)
  have hconvert : convert_escape_sequences (textOf es ++ [0]) =
      some ⟨es.map CChar.value ++ 0 :: rest, [], []⟩ := hrest
  refine ⟨⟨MakeString (UniqueString (es.map CChar.value ++ 0 :: rest)), [], []⟩, ?_, ?_⟩
  · unfold stringLiteral
    rw [hbuffer, hconvert]
    rfl
  · have hcopy : UniqueString (es.map CChar.value ++ 0 :: rest) =
        (es.map CChar.value).takeWhile (· ≠ 0) := by
      unfold UniqueString
      rw [List.takeWhile_append]
      split
      · rename_i hall
        have hself := (List.takeWhile_prefix (p := fun b : ℕ => decide (b ≠ 0))
          (l := es.map CChar.value)).eq_of_length hall
        rw [hself]
        exact List.append_nil _
      · rfl
    exact congrArg MakeString hcopy

/-! ## Wide strings -/

/-- The text of a wide string literal. -/
def wideStringText (es : List CChar) : List ℕ := byte 'L' :: stringText es

theorem text_lt (d : Digit) : d.text < 256 := by
  rcases d with ⟨v, c⟩
  revert v c
  decide

/-- A literal is written in bytes. -/
theorem CChar.ValidWide.text_lt {quote : ℕ} {e : CChar} (h : e.ValidWide quote) :
    ∀ b ∈ e.text, b < 256 := by
  have hdigits : ∀ ds, ∀ b ∈ digitsText ds, b < 256 := fun ds b hb => by
    obtain ⟨d, -, rfl⟩ := List.mem_map.mp hb
    exact Literals.text_lt d
  cases e with
  | plain c => exact List.forall_mem_singleton.mpr (h.2.1.trans (by decide))
  | simple e => cases e <;> decide
  | octal ds => exact List.forall_mem_cons.mpr ⟨by decide, hdigits ds⟩
  | hex ds =>
    exact List.forall_mem_cons.mpr ⟨by decide, List.forall_mem_cons.mpr ⟨by decide, hdigits ds⟩⟩

theorem WideWellFormed.textOf_lt {quote : ℕ} {es : List CChar} (h : WideWellFormed quote es) :
    ∀ b ∈ textOf es, b < 256 := by
  induction es with
  | nil => exact fun b hb => absurd hb List.not_mem_nil
  | cons e es ih =>
    rw [textOf_cons, List.forall_mem_append]
    exact ⟨h.1.text_lt, ih h.2.2⟩

/-- A wide literal of bytes may be any literal. -/
theorem WideWellFormed.narrow {quote : ℕ} {es : List CChar} (h : WideWellFormed quote es)
    (hlt : ∀ e ∈ es, e.value < 256) : WellFormed quote es := by
  induction es with
  | nil => exact trivial
  | cons e es ih =>
    obtain ⟨he, hes⟩ := List.forall_mem_cons.mp hlt
    exact ⟨h.1.narrow he, h.2.1, ih h.2.2 hes⟩

/-- **Only bytes are written** over bytes. -/
theorem convertLoop_lt {fuel read write : ℕ} {string : List ℕ} {errors : List String}
    {r : Result (List ℕ)} (hs : ∀ b ∈ string, b < 256)
    (hr : convertLoop fuel string read write errors = some r) : ∀ b ∈ r.node, b < 256 := by
  have hset : ∀ {string : List ℕ} {v : ℕ}, (∀ b ∈ string, b < 256) → v < 256 → ∀ i,
      ∀ b ∈ string.set i v, b < 256 := fun hs hv i b hb =>
    (List.mem_or_eq_of_mem_set hb).elim (hs b) fun h => h ▸ hv
  induction fuel generalizing string read write errors with
  | zero => cases hr
  | succ fuel ih =>
    unfold convertLoop at hr
    split_ifs at hr with hend hesc
    · cases hr
      exact hset hs (by decide) _
    · obtain ⟨p, -, hr⟩ := Option.bind_eq_some_iff.mp hr
      refine ih (hset hs ?_ _) hr
      split
      · decide
      · omega
    · refine ih (hset hs ?_ _) hr
      unfold at'
      rw [List.getD_eq_getElem?_getD]
      rcases hget : string[read]? with _ | b
      · exact Nat.zero_lt_succ _
      · exact hs b (List.mem_of_getElem? hget)

/-- What is decoded of a wide string starts with its quote. -/
theorem convert_wideStringText {es : List CChar} (h : WellFormed quotation es) : ∃ rest,
    convert_escape_sequences (quotation :: (textOf es ++ [0])) =
      some ⟨quotation :: (es.map CChar.value ++ 0 :: rest), [], []⟩ := by
  obtain ⟨rest, hrest⟩ := convertLoop_text es h [quotation] [] [] (textOf es ++ [0]).length.succ (by
    have := length_le_textOf es
    rw [List.length_append]
    omega)
  exact ⟨rest, hrest⟩

/-- **A wide string is never decoded as C has it.** The rule starts from the
quote, so what is decoded has one more character in front. -/
theorem wideStringLiteral_ne {es : List CChar} (h : WideWellFormed quotation es)
    {r : Result StringNode} (hr : stringLiteral (wideStringText es) = some r) :
    r.node.s ≠ es.map CChar.value := by
  have hbuffer : ((wideStringText es).set ((wideStringText es).length - 1) 0).drop 1 =
      quotation :: (textOf es ++ [0]) := by
    have hlen : (wideStringText es).length - 1 =
        (byte 'L' :: quotation :: textOf es).length := by
      show (textOf es ++ [quotation]).length + 1 = (textOf es).length + 1 + 1
      rw [List.length_append, List.length_singleton]
    have hset := (set_append_length (byte 'L' :: quotation :: textOf es) [quotation] (by simp) 0).trans
      (List.append_nil _)
    rw [hlen]
    exact congrArg (List.drop 1) hset
  unfold stringLiteral at hr
  rw [hbuffer] at hr
  obtain ⟨c, hc, hr⟩ := Option.bind_eq_some_iff.mp hr
  obtain rfl := Option.some.inj hr
  show UniqueString c.node ≠ _
  intro heq
  by_cases hlt : ∀ e ∈ es, e.value < 256
  · obtain ⟨rest, hrest⟩ := convert_wideStringText (h.narrow hlt)
    obtain rfl := Option.some.inj (hc.symm.trans hrest)
    -- the characters before the first zero would repeat the quote for ever
    have hcut : ∀ vs : List ℕ, quotation :: UniqueString (vs ++ 0 :: rest) ≠ vs := by
      intro vs
      induction vs with
      | nil => exact fun h => absurd h (List.cons_ne_nil _ _)
      | cons v vs ih =>
        intro h
        obtain ⟨rfl, htail⟩ := List.cons_eq_cons.mp h
        exact ih htail
    exact hcut _ heq
  · -- no byte is as large as this character
    simp only [not_forall, not_lt] at hlt
    obtain ⟨e, he, hbig⟩ := hlt
    have hmem : e.value ∈ UniqueString c.node := heq ▸ List.mem_map_of_mem he
    have hbytes : ∀ b ∈ quotation :: (textOf es ++ [0]), b < 256 :=
      List.forall_mem_cons.mpr ⟨by decide, List.forall_mem_append.mpr
        ⟨h.textOf_lt, List.forall_mem_singleton.mpr (by decide)⟩⟩
    exact absurd (convertLoop_lt hbytes hc _ (List.takeWhile_sublist _ |>.subset hmem)) (not_lt.mpr hbig)

end Cilk.Literals
