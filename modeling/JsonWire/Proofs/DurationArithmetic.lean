/-
  JsonWire.Proofs.DurationArithmetic — a duration is read and written without a fault.

  A writer in words of 128 bits divides the nanoseconds by the units, and writes what is left
  of a unit as a number with zeros in front, up to the places of the unit, and without the
  zeros at its end. It neither overflows nor divides by zero (`chars_eq`). The units below a
  minute are powers of ten, so the zeros in front fill the number up to exactly the places of
  the unit (`length_padded`), and what is left without those at the end are the digits of the
  fraction (`trimmed_padded`): as many digits determine their number and are determined by it
  (`digits_ext`).

  With the rounds of the reader this is all arithmetic of durations
  (`unchecked_operations_never_fail`).
-/

import JsonWire.Proofs.DurationForms
import JsonWire.Proofs.DurationRounds
import Mathlib.Data.List.DropRight

namespace JsonWire

open Text

/-! ## Digits of a width -/

namespace Text

/-- Digits are determined by their number and by how many they are. -/
theorem digits_ext {digits others : List Char} (hdigits : ∀ c ∈ digits, c.isDigit = true)
    (hothers : ∀ c ∈ others, c.isDigit = true) (hlength : digits.length = others.length)
    (hvalue : Nat.ofDigitChars 10 digits 0 = Nat.ofDigitChars 10 others 0) : digits = others := by
  induction digits generalizing others with
  | nil => exact (List.length_eq_zero_iff.1 hlength.symm).symm
  | cons c digits ih =>
    obtain ⟨d, others, rfl⟩ := List.exists_cons_of_length_eq_add_one hlength.symm
    obtain ⟨hc, hdigits⟩ := List.forall_mem_cons.1 hdigits
    obtain ⟨hd, hothers⟩ := List.forall_mem_cons.1 hothers
    have htail : digits.length = others.length := Nat.succ.inj hlength
    have hlt := ofDigitChars_lt hdigits
    have hltOther := ofDigitChars_lt hothers
    have hpos : 0 < 10 ^ others.length := Nat.pow_pos (by decide)
    rw [Nat.ofDigitChars_cons, Nat.ofDigitChars_eq_ofDigitChars_zero, Nat.ofDigitChars_cons,
      Nat.ofDigitChars_eq_ofDigitChars_zero (l := others), htail, Nat.mul_zero, Nat.zero_add, Nat.zero_add] at hvalue
    rw [htail] at hlt
    -- The rest of either is below the power, so quotient and remainder tell the two parts apart.
    have hhead := congrArg (· / 10 ^ others.length) hvalue
    have hrest := congrArg (· % 10 ^ others.length) hvalue
    simp only [Nat.mul_add_div hpos, Nat.div_eq_of_lt hlt, Nat.div_eq_of_lt hltOther, Nat.add_zero] at hhead
    simp only [Nat.mul_add_mod, Nat.mod_eq_of_lt hlt, Nat.mod_eq_of_lt hltOther] at hrest
    rw [← Duration.digitChar_toNat_sub hc, hhead, Duration.digitChar_toNat_sub hd, ih hdigits hothers htail hrest]

/-- The number with zeros in front, up to a width. -/
def padded (width n : Nat) : List Char := (Nat.toDigits 10 n).leftpad width '0'

theorem length_padded {width n : Nat} (h : n < 10 ^ width) (hn : 0 < n) : (padded width n).length = width := by
  have hwidth : 0 < width := by
    rcases Nat.eq_zero_or_pos width with rfl | hpos
    · exact absurd h (Nat.not_lt.2 hn)
    · exact hpos
  rw [padded, List.length_leftpad]
  exact Nat.max_eq_left ((Nat.length_toDigits_le_iff (by decide) hwidth).2 h)

theorem isDigit_of_mem_padded {width n : Nat} : ∀ c ∈ padded width n, c.isDigit = true := by
  intro c hc
  rcases List.mem_append.1 hc with hc | hc
  · rw [List.eq_of_mem_replicate hc]
    rfl
  · exact Nat.isDigit_of_mem_toDigits (by decide) (by decide) hc

theorem ofDigitChars_padded (width n : Nat) : Nat.ofDigitChars 10 (padded width n) 0 = n := by
  rw [padded, List.leftpad, Nat.ofDigitChars_append, Nat.ofDigitChars_replicate_zero, Nat.mul_zero]
  exact digitsValue_toDigits n

theorem rdropWhile_append_zeros {digits : List Char} (h : digits.getLast? ≠ some '0') (k : Nat) :
    (digits ++ List.replicate k '0').rdropWhile (· == '0') = digits := by
  induction k with
  | zero =>
    rw [List.replicate_zero, List.append_nil]
    rcases List.eq_nil_or_concat' digits with rfl | ⟨front, last, rfl⟩
    · rfl
    · rw [List.rdropWhile_concat_neg]
      intro hlast
      refine h ?_
      rw [List.getLast?_concat, eq_of_beq hlast]
  | succ k ih => rw [List.replicate_succ', ← List.append_assoc, List.rdropWhile_concat_pos _ _ _ (by decide), ih]

end Text

namespace Duration

variable {places n : Nat}

/-- The digits of a fraction are the padded number without the zeros at its end. -/
theorem trimmed_padded (h : n < 10 ^ places) (hn : 0 < n) :
    (padded places n).rdropWhile (· == '0') = fractionDigits places n := by
  have hlength := Term.length_fractionDigits_le places n
  -- Both sides have all places and stand for the same number.
  have hzeros : padded places n
      = fractionDigits places n ++ List.replicate (places - (fractionDigits places n).length) '0' := by
    refine digits_ext isDigit_of_mem_padded ?_ ?_ ?_
    · intro c hc
      rcases List.mem_append.1 hc with hc | hc
      · exact Term.isDigit_of_mem_fractionDigits h c hc
      · rw [List.eq_of_mem_replicate hc]
        rfl
    · rw [length_padded h hn, List.length_append, List.length_replicate]
      omega
    · rw [ofDigitChars_padded, Nat.ofDigitChars_append, Nat.ofDigitChars_replicate_zero, Nat.mul_comm]
      exact (Term.digitsValue_fractionDigits h).symm
  rw [hzeros]
  exact rdropWhile_append_zeros (getLast?_fractionDigits_ne h) _

theorem fractionValue_fractionDigits (h : n < 10 ^ places) :
    fractionValue (fractionDigits places n) = (n : ℚ) / 10 ^ places := by
  have hlength := Term.length_fractionDigits_le places n
  have hvalue := Term.digitsValue_fractionDigits h
  have hpow : (10 : ℚ) ^ places
      = 10 ^ (fractionDigits places n).length * 10 ^ (places - (fractionDigits places n).length) := by
    rw [← pow_add, Nat.add_sub_cancel' hlength]
  have hexact : (n : ℚ) = (Nat.ofDigitChars 10 (fractionDigits places n) 0 : ℕ)
      * 10 ^ (places - (fractionDigits places n).length) := by
    exact_mod_cast hvalue.symm
  rw [fractionValue, hexact, hpow]
  field_simp

end Duration

namespace Guarded

/-! ## Writing -/

/-- All nanoseconds of a duration. -/
def allNanos (d : Duration) : Guarded (BitVec 128) := do
  let nanos ← mul (BitVec.ofNat 128 d.seconds) (scale .second)
  add nanos (BitVec.ofNat 128 d.subsecond)

/-- `value / unit` as a decimal. -/
def decimal (value unit : BitVec 128) : Guarded (List Char) := do
  let whole ← div value unit
  let fraction ← rem value unit
  if fraction = 0 then return Nat.toDigits 10 whole.toNat
  else
    let width ← log10 unit
    return Nat.toDigits 10 whole.toNat ++ '.' :: (padded width fraction.toNat).rdropWhile (· == '0')

/-- The largest unit below a second that leaves a whole part. -/
def shortUnit (nanos : BitVec 128) : TimeUnit :=
  if nanos < scale .microsecond then .nanosecond
  else if nanos < scale .millisecond then .microsecond
  else .millisecond

/-- Nanoseconds as a decimal of a unit. -/
def inUnit (nanos : BitVec 128) (unit : TimeUnit) : Guarded (List Char) :=
  return (← decimal nanos (scale unit)) ++ unit.symbol

/-- Nanoseconds as hours, minutes and seconds, without what is zero in front. -/
def clock (nanos : BitVec 128) : Guarded (List Char) := do
  let hours ← div nanos (scale .hour)
  let minutes ← div (← rem nanos (scale .hour)) (scale .minute)
  let seconds ← rem nanos (scale .minute)
  return (if 0 < hours then Duration.count hours.toNat .hour else [])
    ++ (if 0 < hours ∨ 0 < minutes then Duration.count minutes.toNat .minute else [])
    ++ (← inUnit seconds .second)

/-- The characters of the written form. -/
def chars (d : Duration) : Guarded (List Char) := do
  let nanos ← allNanos d
  if nanos = 0 then return ['0', 's']
  else if nanos < scale .second then inUnit nanos (shortUnit nanos)
  else clock nanos

theorem exists_allNanos (d : Duration) : ∃ nanos, allNanos d = .ok nanos ∧ nanos.toNat = d.nanos := by
  have hlt := d.nanos_lt
  have hseconds : (BitVec.ofNat 128 d.seconds).toNat = d.nanos / 10 ^ 9 := by
    have hfits : d.nanos / 10 ^ 9 < 2 ^ 128 := by omega
    rw [BitVec.toNat_ofNat]
    exact Nat.mod_eq_of_lt hfits
  have hsubsecond : (BitVec.ofNat 128 d.subsecond).toNat = d.nanos % 10 ^ 9 := by
    have hfits : d.nanos % 10 ^ 9 < 2 ^ 128 := by omega
    rw [BitVec.toNat_ofNat]
    exact Nat.mod_eq_of_lt hfits
  have hmul : Exact (mul (BitVec.ofNat 128 d.seconds) (scale .second)) (d.nanos / 10 ^ 9 * 10 ^ 9) :=
    hseconds ▸ exact_mul _ (scale .second)
  obtain ⟨whole, hwhole, whole_eq⟩ := hmul.exists_ok (by omega)
  obtain ⟨nanos, hadd, nanos_eq⟩ := (exact_add whole (BitVec.ofNat 128 d.subsecond)).exists_ok (by omega)
  refine ⟨nanos, ?_, by omega⟩
  rw [allNanos, hwhole, ok_bind, hadd]

theorem point_of_ne_nil {fraction : List Char} (h : fraction ≠ []) : Term.point fraction = '.' :: fraction := by
  cases fraction with
  | nil => exact absurd rfl h
  | cons c fraction => rfl

/-- In a unit that is a power of ten, a decimal is written as one of so many places. -/
theorem decimal_eq {value unit : BitVec 128} {places : Nat} (hunit : unit.toNat = 10 ^ places) :
    decimal value unit = .ok (Duration.decimal value.toNat places) := by
  have hpos : 0 < unit.toNat := hunit ▸ Nat.pow_pos (by decide)
  have hne := ne_zero_of_toNat_pos hpos
  obtain ⟨whole, hdiv, whole_eq⟩ := exists_div (a := value) hne
  obtain ⟨fraction, hrem, fraction_eq⟩ := exists_rem (a := value) hne
  rw [hunit] at whole_eq fraction_eq
  have hbelow : fraction.toNat < 10 ^ places := fraction_eq ▸ Nat.mod_lt _ (Nat.pow_pos (by decide))
  rw [decimal, hdiv, ok_bind, hrem, ok_bind, Duration.decimal_eq, ← whole_eq, ← fraction_eq]
  by_cases hzero : fraction = 0
  · have hnone := (Duration.fractionDigits_eq_nil_iff hbelow).2 (congrArg BitVec.toNat hzero)
    rw [if_pos hzero, hnone, Term.point, List.append_nil]
    rfl
  · have hfraction : fraction.toNat ≠ 0 := fun h => hzero (BitVec.toNat_inj.1 h)
    have hsome := mt (Duration.fractionDigits_eq_nil_iff hbelow).1 hfraction
    rw [if_neg hzero, log10_of_toNat_eq hunit, ok_bind, Duration.trimmed_padded hbelow (Nat.pos_of_ne_zero hfraction),
      point_of_ne_nil hsome]
    rfl

theorem inUnit_eq (nanos : BitVec 128) {unit : TimeUnit} (places : Nat) (h : unit.nanos = 10 ^ places) :
    inUnit nanos unit = .ok (Duration.decimal nanos.toNat places ++ unit.symbol) := by
  rw [inUnit, decimal_eq ((toNat_scale unit).trans h), ok_bind]
  rfl

section Layouts

variable {d : Duration} {nanos : BitVec 128}

theorem lt_scale_iff (h : nanos.toNat = d.nanos) (unit : TimeUnit) : nanos < scale unit ↔ d.nanos < unit.nanos := by
  rw [BitVec.lt_def, toNat_scale, h]

theorem inUnit_shortUnit (h : nanos.toNat = d.nanos) (hpos : 0 < d.nanos) (hlt : d.nanos < 10 ^ 9) :
    inUnit nanos (shortUnit nanos) = .ok d.chars := by
  have hmicro : nanos < scale .microsecond ↔ d.nanos < 10 ^ 3 := lt_scale_iff h .microsecond
  have hmilli : nanos < scale .millisecond ↔ d.nanos < 10 ^ 6 := lt_scale_iff h .millisecond
  unfold shortUnit
  by_cases hlow : d.nanos < 10 ^ 3
  · rw [if_pos (hmicro.2 hlow), inUnit_eq nanos 0 rfl, h, Duration.chars_of_lt_micro hpos hlow]
    rfl
  rw [if_neg (mt hmicro.1 hlow)]
  by_cases hmiddle : d.nanos < 10 ^ 6
  · rw [if_pos (hmilli.2 hmiddle), inUnit_eq nanos 3 rfl, h, Duration.chars_of_lt_milli (by omega) hmiddle]
    rfl
  · rw [if_neg (mt hmilli.1 hmiddle), inUnit_eq nanos 6 rfl, h, Duration.chars_of_lt_second (by omega) hlt]
    rfl

theorem clock_eq (h : nanos.toNat = d.nanos) (hge : 10 ^ 9 ≤ d.nanos) : clock nanos = .ok d.chars := by
  obtain ⟨hours, hhours, hours_eq⟩ := exists_div_scale nanos .hour
  obtain ⟨past, hpast, past_eq⟩ := exists_rem_scale nanos .hour
  obtain ⟨minutes, hminutes, minutes_eq⟩ := exists_div_scale past .minute
  obtain ⟨seconds, hseconds, seconds_eq⟩ := exists_rem_scale nanos .minute
  have hhour : TimeUnit.hour.nanos = 3600 * 10 ^ 9 := rfl
  have hminute : TimeUnit.minute.nanos = 60 * 10 ^ 9 := rfl
  rw [hhour, h] at hours_eq past_eq
  rw [hminute, past_eq] at minutes_eq
  rw [hminute, h] at seconds_eq
  have hsum : d.nanos = 3600 * 10 ^ 9 * hours.toNat + 60 * 10 ^ 9 * minutes.toNat + seconds.toNat := by omega
  have hchars := Duration.chars_of_clock hsum (by omega) (by omega) hge
  rw [clock, hhours, ok_bind, hpast, ok_bind, hminutes, ok_bind, hseconds, ok_bind, inUnit_eq seconds 9 rfl, ok_bind,
    List.append_assoc, hchars]
  simp only [BitVec.lt_def]
  rfl

end Layouts

/-- The writer in words does not fail, and writes what is written in natural numbers. -/
theorem chars_eq (d : Duration) : chars d = .ok d.chars := by
  obtain ⟨nanos, hnanos, nanos_eq⟩ := exists_allNanos d
  have hsecond : nanos < scale .second ↔ d.nanos < 10 ^ 9 := lt_scale_iff nanos_eq .second
  rw [chars, hnanos, ok_bind]
  by_cases hzero : d.nanos = 0
  · have hnone : nanos = 0 := BitVec.toNat_inj.1 (nanos_eq.trans hzero)
    have hchars : d.chars = ['0', 's'] := by simp [Duration.chars, hzero]
    rw [if_pos hnone, hchars]
    rfl
  have hsome : nanos ≠ 0 := by
    rintro rfl
    exact hzero nanos_eq.symm
  rw [if_neg hsome]
  by_cases hshort : d.nanos < 10 ^ 9
  · rw [if_pos (hsecond.2 hshort)]
    exact inUnit_shortUnit nanos_eq (Nat.pos_of_ne_zero hzero) hshort
  · rw [if_neg (mt hsecond.1 hshort)]
    exact clock_eq nanos_eq (Nat.le_of_not_lt hshort)

/-! ## Both -/

theorem exists_smaller_round (r : Reading) : ∃ next, r.round = .ok next
    ∧ ∀ left, next = some left → (bytes left.rest).length < (bytes r.rest).length := by
  rcases r.round_cases with ⟨-, hround⟩ | ⟨t, rest, next, -, hshort, hround, -⟩
  · refine ⟨none, hround, ?_⟩
    intro left hleft
    cases hleft
  · refine ⟨_, hround, ?_⟩
    intro left hleft
    obtain ⟨total, -, rfl⟩ := Option.map_eq_some_iff.1 hleft
    exact hshort

theorem toOption_parse (text : String) : (Duration.parse text).toOption = Duration.ofChars? text.toList := by
  rw [Duration.parse]
  cases Duration.ofChars? text.toList <;> rfl

/-- No operation that reading or writing a duration uses unchecked is used where it has no answer.
A text is cut at its own places. As many digits as count stay below their divisor, and their
fraction of any unit fits. A round ends with less text, whatever it starts from, so the loop ends;
the seconds and nanoseconds of a total are in range. A decimal in a unit of `10 ^ places` divides
by no zero, pads to `places` digits and has the value of the fraction. -/
theorem unchecked_operations_never_fail :
    (∀ s : List Char, (String.Pos.Raw.mk (leadingDigits s)).IsValid (String.ofList s)
      ∧ (String.Pos.Raw.mk (offset beginsNumber s)).IsValid (String.ofList s))
    ∧ (∀ (digits : List Char) (unit : TimeUnit), (∀ c ∈ digits, c.isDigit = true) →
      digits.length ≤ Term.maxFractionDigits →
      ∃ fraction divisor scaled part, (bytes digits).foldlM addDigit (0, 1) = .ok (fraction, divisor)
        ∧ fraction.toNat < divisor.toNat ∧ divisor.toNat = 10 ^ digits.length
        ∧ mul fraction (scale unit) = .ok scaled ∧ div scaled divisor = .ok part)
    ∧ (∀ r : Reading, ∃ next, r.round = .ok next
      ∧ ∀ left, next = some left → (bytes left.rest).length < (bytes r.rest).length)
    ∧ (∀ r : Reading, ∃ total, r.run = .ok total)
    ∧ (∀ total, duration total = .ok (Duration.ofNanos? total.toNat))
    ∧ (∀ text : String, parse text.toList = .ok (Duration.parse text).toOption)
    ∧ (∀ d, chars d = .ok d.chars)
    ∧ ∀ (value unit : BitVec 128) (places : Nat), unit.toNat = 10 ^ places →
      ∃ fraction, decimal value unit
          = .ok (Nat.toDigits 10 (value.toNat / 10 ^ places) ++ Term.point fraction)
        ∧ fractionValue fraction = ((value.toNat % 10 ^ places : ℕ) : ℚ) / 10 ^ places
        ∧ log10 unit = .ok places
        ∧ (0 < value.toNat % 10 ^ places → (padded places (value.toNat % 10 ^ places)).length = places) := by
  refine ⟨?_, ?_, exists_smaller_round, ?_, duration_eq, ?_, chars_eq, ?_⟩
  · intro s
    exact ⟨exists_split_iff.1 ⟨_, split_leadingDigits s⟩, exists_split_iff.1 ⟨_, split_offset beginsNumber s⟩⟩
  · intro digits unit hdigits hlength
    obtain ⟨fraction, divisor, hrun, -, hlt, hdivisor⟩ := exists_countedDigits hdigits hlength
    obtain ⟨scaled, part, hmul, hdiv, -⟩ := exists_fractionPart unit hlt hdivisor hlength
    exact ⟨fraction, divisor, scaled, part, hrun, hlt, hdivisor, hmul, hdiv⟩
  · intro r
    obtain ⟨total, hrun, -⟩ := r.exists_run
    exact ⟨total, hrun⟩
  · intro text
    rw [parse_eq, toOption_parse]
  · intro value unit places hunit
    have hbelow : value.toNat % 10 ^ places < 10 ^ places := Nat.mod_lt _ (Nat.pow_pos (by decide))
    refine ⟨Duration.fractionDigits places (value.toNat % 10 ^ places), ?_,
      Duration.fractionValue_fractionDigits hbelow, log10_of_toNat_eq hunit, length_padded hbelow⟩
    rw [decimal_eq hunit, Duration.decimal_eq]

/-- The largest fraction that counts fits in the largest unit, a unit of three bytes is cut off behind
them, a round takes it off, and the zeros between a point and a single digit are padded. -/
theorem largest_fraction_of_an_hour_fits :
    ((∀ c ∈ List.replicate 18 '9', c.isDigit = true) ∧ (List.replicate 18 '9').length ≤ Term.maxFractionDigits
      ∧ ∃ fraction divisor scaled part,
        (bytes (List.replicate 18 '9')).foldlM addDigit (0, 1) = .ok (fraction, divisor)
        ∧ fraction.toNat < divisor.toNat ∧ divisor.toNat = 10 ^ 18
        ∧ mul fraction (scale .hour) = .ok scaled ∧ div scaled divisor = .ok part)
    ∧ (String.Pos.Raw.mk 3).IsValid (String.ofList ['\u00b5', 's', '1', 'h'])
    ∧ (∃ left, Reading.round ⟨0, ['2', '\u00b5', 's', '1', 'h']⟩ = .ok (some left) ∧ (bytes left.rest).length < 6)
    ∧ (1000000 : BitVec 128).toNat = 10 ^ 6
    ∧ ∃ fraction, decimal 1000001 1000000 = .ok (['1'] ++ Term.point fraction)
        ∧ fractionValue fraction = ((1 : ℕ) : ℚ) / 10 ^ 6 ∧ (padded 6 1).length = 6 := by
  have hdigits : ∀ c ∈ List.replicate 18 '9', c.isDigit = true := by
    intro c hc
    rw [List.eq_of_mem_replicate hc]
    rfl
  have hlength : (List.replicate 18 '9').length ≤ Term.maxFractionDigits := Nat.le_of_eq List.length_replicate
  have hunit : (1000000 : BitVec 128).toNat = 10 ^ 6 := rfl
  have hround : Reading.round ⟨0, ['2', '\u00b5', 's', '1', 'h']⟩ = .ok (some ⟨2000, ['1', 'h']⟩) := rfl
  obtain ⟨places, fractions, rounds, -, -, -, -, decimals⟩ := unchecked_operations_never_fail
  obtain ⟨next, hnext, hless⟩ := rounds ⟨0, ['2', '\u00b5', 's', '1', 'h']⟩
  obtain ⟨fraction, hdecimal, hvalue, -, hpadded⟩ := decimals 1000001 1000000 6 hunit
  refine ⟨⟨hdigits, hlength, fractions _ .hour hdigits hlength⟩, (places _).2, ?_, hunit, fraction, hdecimal, hvalue,
    hpadded (by decide)⟩
  rw [hround] at hnext
  cases hnext
  exact ⟨_, hround, hless _ rfl⟩

end Guarded

end JsonWire
