/-
  JsonWire.Proofs.DurationLoss — what reading a duration drops.

  A term stands for a decimal of its unit, which is an exact number of nanoseconds but
  need not be a whole one (`Term.value`). Reading drops twice: the digits of the fraction
  behind the eighteenth, then what is left below a nanosecond. So a term is read as the
  floor of what its counted digits stand for (`nanos_eq_floor`), and never as more than it
  stands for (`nanos_le_value`).

  Where all digits count, that is less than a nanosecond. The others are worth less than
  `10 ^ -18` of the unit, for an hour of `3.6 * 10 ^ 12` nanoseconds: next to nothing, but
  without them the rest may lie just below a whole number, and a whole nanosecond is lost
  on top (`value_sub_nanos_lt`). Over a text the losses of its terms add up
  (`loss_lt_of_forall`), so `n` terms lose less than `n` times what one may lose.
-/

import JsonWire.Proofs.DurationGrammar
import Mathlib.Algebra.Order.Floor.Semifield
import Mathlib.Data.Rat.Floor
import Mathlib.Tactic.FieldSimp
import Mathlib.Tactic.Linarith
import Mathlib.Tactic.NormNum
import Mathlib.Tactic.Positivity
import Mathlib.Tactic.Ring

namespace JsonWire

namespace Text

/-! ## Digits behind a point -/

theorem ofDigitChars_lt {digits : List Char} (h : ∀ c ∈ digits, c.isDigit = true) :
    Nat.ofDigitChars 10 digits 0 < 10 ^ digits.length := by
  induction digits with
  | nil => exact Nat.one_pos
  | cons c rest ih =>
    obtain ⟨hc, hrest⟩ := List.forall_mem_cons.1 h
    have hdigit := digit_lt_ten hc
    have hbelow := ih hrest
    rw [Nat.ofDigitChars_cons, Nat.ofDigitChars_eq_ofDigitChars_zero, List.length_cons, Nat.pow_succ, Nat.mul_zero,
      Nat.zero_add]
    generalize c.toNat - '0'.toNat = d at *
    have hbound : 10 ^ rest.length * d ≤ 10 ^ rest.length * 9 := Nat.mul_le_mul_left _ (Nat.le_of_lt_succ hdigit)
    omega

/-- What digits behind a point stand for. -/
def fractionValue (digits : List Char) : ℚ := Nat.ofDigitChars 10 digits 0 / 10 ^ digits.length

theorem fractionValue_nil : fractionValue [] = 0 := by simp [fractionValue]

theorem fractionValue_nonneg (digits : List Char) : 0 ≤ fractionValue digits := by
  unfold fractionValue
  positivity

theorem fractionValue_lt_one {digits : List Char} (h : ∀ c ∈ digits, c.isDigit = true) :
    fractionValue digits < 1 := by
  rw [fractionValue, div_lt_one (by positivity)]
  exact_mod_cast ofDigitChars_lt h

theorem fractionValue_append (first rest : List Char) :
    fractionValue (first ++ rest) = fractionValue first + fractionValue rest / 10 ^ first.length := by
  unfold fractionValue
  rw [Nat.ofDigitChars_append, Nat.ofDigitChars_eq_ofDigitChars_zero, List.length_append, pow_add]
  push_cast
  field_simp

end Text

open Text

theorem TimeUnit.nanos_le_hour (unit : TimeUnit) : unit.nanos ≤ TimeUnit.hour.nanos := by cases unit <;> decide

namespace Term

/-! ## One term -/

/-- The exact nanoseconds that a term stands for. -/
def value (t : Term) : ℚ := (Nat.ofDigitChars 10 t.whole 0 + fractionValue t.fraction) * t.unit.nanos

/-- The term with the digits of its fraction that count. -/
def counted (t : Term) : Term := { t with fraction := t.fraction.take maxFractionDigits }

theorem counted_of_length_le {t : Term} (h : t.fraction.length ≤ 18) : t.counted = t := by
  have htake : t.fraction.take maxFractionDigits = t.fraction := List.take_of_length_le h
  rw [counted, htake]

theorem nanos_eq_floor (t : Term) : t.nanos = ⌊t.counted.value⌋₊ := by
  have hsplit : t.counted.value
      = ((digitsValue t.counted.fraction * t.unit.nanos : ℕ) : ℚ) / ((10 ^ t.counted.fraction.length : ℕ) : ℚ)
        + ((digitsValue t.whole * t.unit.nanos : ℕ) : ℚ) := by
    show ((digitsValue t.whole : ℕ) + ((digitsValue t.counted.fraction : ℕ) : ℚ) / 10 ^ t.counted.fraction.length)
      * (t.unit.nanos : ℚ) = _
    push_cast
    ring
  rw [hsplit, Nat.floor_add_natCast (by positivity), Nat.floor_div_eq_div, nanos_eq, Nat.add_comm]
  rfl

theorem value_eq_counted_add (t : Term) :
    t.value = t.counted.value
      + fractionValue (t.fraction.drop maxFractionDigits) / 10 ^ t.counted.fraction.length * t.unit.nanos := by
  have hfraction := fractionValue_append t.counted.fraction (t.fraction.drop maxFractionDigits)
  have hdigits : t.counted.fraction ++ t.fraction.drop maxFractionDigits = t.fraction := List.take_append_drop ..
  have hcounted : t.counted.value
      = (Nat.ofDigitChars 10 t.whole 0 + fractionValue t.counted.fraction) * t.unit.nanos := rfl
  rw [hdigits] at hfraction
  rw [value, hfraction, hcounted]
  ring

theorem value_nonneg (t : Term) : 0 ≤ t.value := by
  have := fractionValue_nonneg t.fraction
  unfold value
  positivity

theorem counted_value_le (t : Term) : t.counted.value ≤ t.value := by
  have hdropped := fractionValue_nonneg (t.fraction.drop maxFractionDigits)
  rw [t.value_eq_counted_add, le_add_iff_nonneg_right]
  positivity

/-- The digits that do not count are worth less than `10 ^ -18` of an hour. -/
theorem value_sub_counted_lt {t : Term} (h : ∀ c ∈ t.fraction, c.isDigit = true) :
    t.value - t.counted.value < 36 / 10 ^ 7 := by
  rw [t.value_eq_counted_add, add_sub_cancel_left]
  rcases Nat.le_total t.fraction.length maxFractionDigits with hle | hge
  · rw [List.drop_of_length_le hle, fractionValue_nil]
    norm_num
  · have hlength : t.counted.fraction.length = 18 := List.length_take_of_le hge
    have hbelow : fractionValue (t.fraction.drop maxFractionDigits) < 1 :=
      fractionValue_lt_one fun c hc => h c (List.mem_of_mem_drop hc)
    have hunit : (t.unit.nanos : ℚ) ≤ 3600 * 10 ^ 9 := by exact_mod_cast t.unit.nanos_le_hour
    have hpos : (0 : ℚ) < t.unit.nanos := by exact_mod_cast t.unit.nanos_pos
    rw [hlength]
    calc fractionValue (t.fraction.drop maxFractionDigits) / 10 ^ 18 * t.unit.nanos
        < 1 / 10 ^ 18 * t.unit.nanos := by gcongr
      _ ≤ 1 / 10 ^ 18 * (3600 * 10 ^ 9) := by gcongr
      _ = 36 / 10 ^ 7 := by norm_num

/-- No term is read as more than it stands for. -/
theorem nanos_le_value (t : Term) : (t.nanos : ℚ) ≤ t.value := by
  rw [nanos_eq_floor]
  exact le_trans (Nat.floor_le t.counted.value_nonneg) t.counted_value_le

theorem value_sub_nanos_lt {t : Term} (h : ∀ c ∈ t.fraction, c.isDigit = true) :
    t.value - t.nanos < 1 + 36 / 10 ^ 7 := by
  have hfloor := Nat.lt_floor_add_one t.counted.value
  have hdropped := value_sub_counted_lt h
  rw [← nanos_eq_floor] at hfloor
  linarith

theorem nanos_eq_floor_value {t : Term} (h : t.fraction.length ≤ 18) : t.nanos = ⌊t.value⌋₊ := by
  rw [nanos_eq_floor, counted_of_length_le h]

theorem value_sub_nanos_lt_one {t : Term} (h : t.fraction.length ≤ 18) : t.value - t.nanos < 1 := by
  have hfloor := Nat.lt_floor_add_one t.value
  rw [← nanos_eq_floor_value h] at hfloor
  linarith

/-! ## All terms -/

/-- The exact nanoseconds of all terms. -/
def worth : List Term → ℚ
  | [] => 0
  | t :: terms => t.value + worth terms

theorem sum_le_worth (terms : List Term) : (sum terms : ℚ) ≤ worth terms := by
  induction terms with
  | nil => simp [sum, worth]
  | cons t terms ih =>
    have hterm := t.nanos_le_value
    rw [sum, worth]
    push_cast
    linarith

/-- Losses add up. -/
theorem loss_lt_of_forall {terms : List Term} {loss : ℚ} (hne : terms ≠ [])
    (h : ∀ t ∈ terms, t.value - t.nanos < loss) : worth terms - sum terms < terms.length * loss := by
  induction terms with
  | nil => exact absurd rfl hne
  | cons t terms ih =>
    obtain ⟨hterm, hrest⟩ := List.forall_mem_cons.1 h
    rw [sum, worth, List.length_cons]
    push_cast
    by_cases hnil : terms = []
    · subst hnil
      simpa [sum, worth] using hterm
    · have := ih hnil hrest
      linarith

theorem sum_eq_worth {terms : List Term} (h : ∀ t ∈ terms, (t.nanos : ℚ) = t.value) :
    (sum terms : ℚ) = worth terms := by
  induction terms with
  | nil => simp [sum, worth]
  | cons t terms ih =>
    obtain ⟨hterm, hrest⟩ := List.forall_mem_cons.1 h
    rw [sum, worth, ← hterm, ← ih hrest]
    push_cast
    rfl

theorem Spells.isDigit_fraction {text : List Char} {t : Term} (h : Spells text t) :
    ∀ c ∈ t.fraction, c.isDigit = true := by
  cases h with
  | plain _ _ _ => exact fun c hc => absurd hc List.not_mem_nil
  | pointed _ _ hfraction _ => exact hfraction

theorem SpellsAll.isDigit_fraction {s : List Char} {terms : List Term} (h : SpellsAll s terms) :
    ∀ t ∈ terms, ∀ c ∈ t.fraction, c.isDigit = true := by
  induction h with
  | nil => exact fun t ht => absurd ht List.not_mem_nil
  | cons hfirst _ ih => exact List.forall_mem_cons.2 ⟨hfirst.isDigit_fraction, ih⟩

end Term

namespace Duration

theorem Spells.exists_spellsAll {s : List Char} {terms : List Term} (h : Spells s terms) (hzero : s ≠ ['0'])
    (hsigned : s ≠ ['+', '0']) : terms ≠ [] ∧ ∃ unsigned, Term.SpellsAll unsigned terms := by
  cases h with
  | plain h =>
    cases h with
    | zero => exact absurd rfl hzero
    | terms hne h => exact ⟨hne, _, h⟩
  | signed h =>
    cases h with
    | zero => exact absurd rfl hsigned
    | terms hne h => exact ⟨hne, _, h⟩

/-- A text other than zero is read as no more than its terms stand for, and as less by under `1 + 3.6 / 10 ^ 6`
nanoseconds a term. A term with at most eighteen digits behind its point counts as the floor of what it
stands for. If all terms are such, the loss is under a nanosecond a term, and there is none if each stands
for a whole number of nanoseconds. -/
theorem parse_loses_little (text : String) (d : Duration) (hparse : parse text = .ok d) (hzero : text ≠ "0")
    (hsigned : text ≠ "+0") :
    ∃ terms, Spells text.toList terms ∧ (∀ others, Spells text.toList others → others = terms)
      ∧ 1 ≤ terms.length ∧ d.nanos = Term.sum terms
      ∧ 0 ≤ Term.worth terms - d.nanos
      ∧ Term.worth terms - d.nanos < terms.length * (1 + 3.6 / 10 ^ 6)
      ∧ (∀ t ∈ terms, t.fraction.length ≤ 18 → t.nanos = ⌊t.value⌋₊)
      ∧ ((∀ t ∈ terms, t.fraction.length ≤ 18) →
        Term.worth terms - d.nanos < terms.length
        ∧ ((∀ t ∈ terms, ∃ n : ℕ, t.value = n) → (d.nanos : ℚ) = Term.worth terms)) := by
  obtain ⟨terms, hspells, hd⟩ := ofChars?_eq_some_iff.1 (parse_eq_ok_iff.1 hparse)
  obtain ⟨hne, unsigned, hall⟩ := hspells.exists_spellsAll (fun h => hzero (String.toList_inj.1 h))
    (fun h => hsigned (String.toList_inj.1 h))
  have hdigits := hall.isDigit_fraction
  rw [hd]
  refine ⟨terms, hspells, fun others hothers => hothers.unique hspells, List.length_pos_iff.2 hne, rfl,
    sub_nonneg.2 (Term.sum_le_worth terms), ?_, fun t _ => Term.nanos_eq_floor_value,
    fun hshort => ⟨?_, fun hwhole => ?_⟩⟩
  · have hbound : (1 + 3.6 / 10 ^ 6 : ℚ) = 1 + 36 / 10 ^ 7 := by norm_num
    rw [hbound]
    exact Term.loss_lt_of_forall hne fun t ht => Term.value_sub_nanos_lt (hdigits t ht)
  · have hloss := Term.loss_lt_of_forall hne fun t ht => Term.value_sub_nanos_lt_one (hshort t ht)
    rwa [mul_one] at hloss
  · refine Term.sum_eq_worth fun t ht => ?_
    obtain ⟨n, hn⟩ := hwhole t ht
    rw [Term.nanos_eq_floor_value (hshort t ht), hn, Nat.floor_natCast]

/-- The two digits behind the eighteenth are worth less than three millionths of a nanosecond, yet without them
this is no whole one. With fewer digits the nanosecond is there. -/
theorem last_digits_cost_a_nanosecond :
    let long : Term := ⟨[], "00000000000027777799".toList, .hour⟩
    let short : Term := ⟨[], "00000000000027778".toList, .hour⟩
    (parse ".00000000000027777799h" = .ok zero ∧ Spells ".00000000000027777799h".toList [long]
      ∧ 1 < long.value ∧ long.value < 1 + 3.6 / 10 ^ 6)
    ∧ ∃ d, parse ".00000000000027778h" = .ok d ∧ d.nanos = 1 ∧ Spells ".00000000000027778h".toList [short]
      ∧ short.value - d.nanos < 1 := by
  intro long short
  have hours (t : Term) (hfraction : t.fraction ≠ []) (hdigits : ∀ c ∈ t.fraction, c.isDigit = true)
      (ht : t = ⟨[], t.fraction, .hour⟩) : Spells ('.' :: (t.fraction ++ ['h'] ++ [])) [t] := by
    rw [ht]
    have spelled : Term.Spells ([] ++ '.' :: (t.fraction ++ ['h'])) ⟨[], t.fraction, .hour⟩ :=
      .pointed (.inr hfraction) (fun c hc => absurd hc List.not_mem_nil) hdigits (by decide)
    exact .plain (.terms (List.cons_ne_nil _ _) (.cons spelled .nil))
  have long_spells : Spells ".00000000000027777799h".toList [long] :=
    hours long (by decide) (List.all_eq_true.1 rfl) rfl
  have short_spells : Spells ".00000000000027778h".toList [short] :=
    hours short (by decide) (List.all_eq_true.1 rfl) rfl
  have long_value : long.value = 1.000000764 := by
    have hdigits : Nat.ofDigitChars 10 long.fraction 0 = 27777799 := by decide
    have hlength : long.fraction.length = 20 := by decide
    rw [Term.value, fractionValue, hdigits, hlength]
    norm_num [long, TimeUnit.nanos]
  have long_read : parse ".00000000000027777799h" = .ok zero :=
    parse_eq_ok_iff.2 (ofChars?_eq_some_iff.2 ⟨[long], long_spells, by decide⟩)
  have short_read : parse ".00000000000027778h" = .ok ⟨1, by decide⟩ :=
    parse_eq_ok_iff.2 (ofChars?_eq_some_iff.2 ⟨[short], short_spells, by decide⟩)
  refine ⟨⟨long_read, long_spells, ?_, ?_⟩, _, short_read, rfl, short_spells, ?_⟩
  · rw [long_value]
    norm_num
  · obtain ⟨terms, -, unique, -, -, -, bound, -⟩ := parse_loses_little _ _ long_read (by decide) (by decide)
    obtain rfl := unique _ long_spells
    simpa [Term.worth, zero] using bound
  · obtain ⟨terms, -, unique, -, -, -, -, -, short_loss⟩ := parse_loses_little _ _ short_read (by decide) (by decide)
    obtain rfl := unique _ short_spells
    simpa [Term.worth] using (short_loss (by decide)).1

end Duration

end JsonWire
