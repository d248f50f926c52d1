/-
  JsonWire.Proofs.DurationRounds — reading a duration round by round, in words of 128 bits.

  A reader in words goes over the text once. Each round of its loop (`Reading.round`) cuts the
  first term off at byte places and adds it to a total of 128 bits. Only the products and sums
  that may be too large for an acceptable reason are checked: those of whole units and of
  totals. The rest is guarded, so that a fault would show.

  There is none, whatever the text and the total are:
  - `readTerm_eq`: every place where the text is cut is one of its own places;
  - `exists_foldlM_addDigit`: after `k` digits of a fraction, at most eighteen, the fraction is
    below its divisor, which is `10 ^ k`; so neither overflows, and no division is by zero;
  - `exists_fractionPart`: a fraction below `10 ^ 18` times an hour fits 128 bits by far;
  - `Reading.round_cases`: a round ends, and leaves less text;
  - `duration_eq`: what is made of a total is in range.

  So the loop ends, and it reads what `Duration.ofChars?` reads (`parse_eq`).
-/

import JsonWire.Proofs.DurationLoss
import JsonWire.Proofs.Guarded

namespace JsonWire

open Text

namespace Guarded

/-! ## Cutting a term off -/

/-- The digits after a point, if a point comes next. -/
def readFraction : List Char → Guarded (List Char × List Char)
  | '.' :: rest => split rest (leadingDigits rest)
  | s => .ok ([], s)

/-- A term, or its number without a unit, goes no further than this. -/
def beginsNumber (c : Char) : Bool := c.isDigit || c = '.'

/-- The first term of a text and what follows it. -/
def readTerm (s : List Char) : Guarded (Option (Term × List Char)) := do
  let (whole, s) ← split s (leadingDigits s)
  let (fraction, s) ← readFraction s
  if whole = [] ∧ fraction = [] then return none
  else
    let (symbol, rest) ← split s (offset beginsNumber s)
    return (TimeUnit.ofSymbol? symbol).map fun unit => (⟨whole, fraction, unit⟩, rest)

theorem readFraction_eq (s : List Char) : readFraction s = .ok (Term.readFraction s) := by
  unfold readFraction
  split
  · exact split_leadingDigits _
  · rename_i hother
    unfold Term.readFraction
    split
    · exact absurd rfl (hother _)
    · rfl

theorem readTerm_eq (s : List Char) : readTerm s = .ok (Term.read? s) := by
  obtain ⟨⟨whole, after⟩, hspan⟩ : ∃ split, spanDigits s = split := ⟨_, rfl⟩
  obtain ⟨⟨fraction, tail⟩, hpoint⟩ : ∃ split, Term.readFraction after = split := ⟨_, rfl⟩
  have hunit : split tail (offset beginsNumber tail) = .ok (tail.takeWhile Term.inUnit, tail.dropWhile Term.inUnit) :=
    split_offset beginsNumber tail
  simp only [readTerm, Term.read?, split_leadingDigits, readFraction_eq, ok_bind, hspan, hpoint]
  by_cases hnone : whole = [] ∧ fraction = []
  · rw [if_pos hnone, if_pos hnone]
    rfl
  · rw [if_neg hnone, if_neg hnone, hunit, ok_bind]
    cases TimeUnit.ofSymbol? (tail.takeWhile Term.inUnit) <;> rfl

/-! ## Adding it up -/

/-- One digit more of a fraction, and ten times the divisor. -/
def addDigit (counted : BitVec 128 × BitVec 128) (byte : UInt8) : Guarded (BitVec 128 × BitVec 128) := do
  let tens ← mul counted.1 10
  let digit ← sub byte.toBitVec 48
  let fraction ← add tens (digit.setWidth 128)
  let divisor ← mul counted.2 10
  return (fraction, divisor)

/-- The number of the digits that count, and its divisor. -/
def countDigits (fraction : List Char) : Guarded (BitVec 128 × BitVec 128) :=
  ((bytes fraction).take Term.maxFractionDigits).foldlM addDigit (0, 1)

/-- The number of the digits before the point, if 128 bits hold it. -/
def wholePart (digits : List Char) : Option (BitVec 128) :=
  (Term.checked (digitsValue digits)).map (BitVec.ofNat 128)

def scale (unit : TimeUnit) : BitVec 128 := BitVec.ofNat 128 unit.nanos

/-- The total with one term more, if it and the whole units fit. -/
def addTerm (total : BitVec 128) (t : Term) : Guarded (Option (BitVec 128)) :=
  match wholePart t.whole with
  | none => return none
  | some whole => do
    let (fraction, divisor) ← countDigits t.fraction
    let scaled ← mul fraction (scale t.unit)
    let part ← div scaled divisor
    return do
      let nanos ← (mul whole (scale t.unit)).toOption
      let nanos ← (add nanos part).toOption
      (add nanos total).toOption

theorem toNat_scale (unit : TimeUnit) : (scale unit).toNat = unit.nanos := by
  cases unit <;> rfl

theorem scale_ne_zero (unit : TimeUnit) : scale unit ≠ 0 :=
  ne_zero_of_toNat_pos ((toNat_scale unit).symm ▸ unit.nanos_pos)

theorem exists_div_scale (nanos : BitVec 128) (unit : TimeUnit) :
    ∃ whole, div nanos (scale unit) = .ok whole ∧ whole.toNat = nanos.toNat / unit.nanos := by
  rw [← toNat_scale unit]
  exact exists_div (scale_ne_zero unit)

theorem exists_rem_scale (nanos : BitVec 128) (unit : TimeUnit) :
    ∃ rest, rem nanos (scale unit) = .ok rest ∧ rest.toNat = nanos.toNat % unit.nanos := by
  rw [← toNat_scale unit]
  exact exists_rem (scale_ne_zero unit)

section Digits

variable {fraction divisor : BitVec 128} {c : Char} {digits : List Char} {k : Nat}

/-- One digit keeps a fraction below its divisor. -/
theorem exists_addDigit (hc : c.isDigit = true) (hk : k < 18) (hfraction : fraction.toNat < 10 ^ k)
    (hdivisor : divisor.toNat = 10 ^ k) :
    ∃ fraction' divisor', addDigit (fraction, divisor) (UInt8.ofNat c.toNat) = .ok (fraction', divisor')
      ∧ fraction'.toNat = 10 * fraction.toNat + (c.toNat - '0'.toNat) ∧ fraction'.toNat < 10 ^ (k + 1)
      ∧ divisor'.toNat = 10 ^ (k + 1) := by
  have hdigit := digit_lt_ten hc
  obtain ⟨hlow, hhigh⟩ := isDigit_iff.1 hc
  have hzero : '0'.toNat = 48 := rfl
  have hbyte : (UInt8.ofNat c.toNat).toBitVec.toNat = c.toNat := by
    rw [UInt8.toNat_toBitVec, UInt8.toNat_ofNat']
    omega
  have hpow : 10 ^ (k + 1) = 10 * 10 ^ k := Nat.pow_succ'
  have hbound : 10 ^ (k + 1) ≤ 10 ^ 18 := Nat.pow_le_pow_right (by decide) hk
  have htens : Exact (mul fraction 10) (fraction.toNat * 10) := exact_mul fraction 10
  have hten : Exact (mul divisor 10) (divisor.toNat * 10) := exact_mul divisor 10
  have hsub : Exact (sub (UInt8.ofNat c.toNat).toBitVec 48) ((UInt8.ofNat c.toNat).toBitVec.toNat - 48) :=
    exact_sub (by rw [hbyte]; exact hlow)
  obtain ⟨tens, htens, tens_eq⟩ := htens.exists_ok (by omega)
  obtain ⟨digit, hsub, digit_eq⟩ := hsub.exists_ok (by omega)
  have hwide : (digit.setWidth 128).toNat = c.toNat - '0'.toNat := by
    rw [BitVec.toNat_setWidth, digit_eq, hbyte]
    exact Nat.mod_eq_of_lt (Nat.lt_trans hdigit (by decide))
  obtain ⟨fraction', hadd, fraction_eq⟩ := (exact_add tens (digit.setWidth 128)).exists_ok (by omega)
  obtain ⟨divisor', hmul, divisor_eq⟩ := hten.exists_ok (by omega)
  refine ⟨fraction', divisor', ?_, by omega, by omega, by omega⟩
  simp only [addDigit, htens, hsub, hadd, hmul, ok_bind]
  rfl

/-- After `k` digits the divisor is `10 ^ k`, and above the fraction. -/
theorem exists_foldlM_addDigit (hdigits : ∀ c ∈ digits, c.isDigit = true) (hk : k + digits.length ≤ 18)
    (hfraction : fraction.toNat < 10 ^ k) (hdivisor : divisor.toNat = 10 ^ k) :
    ∃ fraction' divisor', (bytes digits).foldlM addDigit (fraction, divisor) = .ok (fraction', divisor')
      ∧ fraction'.toNat = Nat.ofDigitChars 10 digits fraction.toNat ∧ fraction'.toNat < divisor'.toNat
      ∧ divisor'.toNat = 10 ^ (k + digits.length) := by
  induction digits generalizing fraction divisor k with
  | nil => exact ⟨fraction, divisor, rfl, rfl, hdivisor ▸ hfraction, hdivisor⟩
  | cons c digits ih =>
    obtain ⟨hc, hrest⟩ := List.forall_mem_cons.1 hdigits
    rw [List.length_cons] at hk
    obtain ⟨next, nextDivisor, hstep, next_eq, next_lt, nextDivisor_eq⟩ :=
      exists_addDigit hc (by omega) hfraction hdivisor
    obtain ⟨last, lastDivisor, hrun, last_eq, last_lt, lastDivisor_eq⟩ :=
      ih hrest (by omega) next_lt nextDivisor_eq
    refine ⟨last, lastDivisor, ?_, ?_, last_lt, ?_⟩
    · rw [bytes_cons, utf8EncodeChar_of_isDigit hc, List.singleton_append, List.foldlM_cons, hstep, ok_bind, hrun]
    · rw [last_eq, next_eq, Nat.ofDigitChars_cons]
    · rw [lastDivisor_eq, List.length_cons, Nat.add_right_comm, Nat.add_assoc]

theorem take_bytes_of_digits (hdigits : ∀ c ∈ digits, c.isDigit = true) (n : Nat) :
    (bytes digits).take n = bytes (digits.take n) := by
  rw [bytes_of_digits hdigits, bytes_of_digits fun c hc => hdigits c (List.mem_of_mem_take hc), List.map_take]

/-- As many digits as count have a number below their divisor. -/
theorem exists_countedDigits (hdigits : ∀ c ∈ digits, c.isDigit = true)
    (hlength : digits.length ≤ Term.maxFractionDigits) :
    ∃ fraction divisor, (bytes digits).foldlM addDigit (0, 1) = .ok (fraction, divisor)
      ∧ fraction.toNat = digitsValue digits ∧ fraction.toNat < divisor.toNat
      ∧ divisor.toNat = 10 ^ digits.length := by
  have hbound : 0 + digits.length ≤ 18 := (Nat.zero_add _).symm ▸ hlength
  obtain ⟨fraction, divisor, hrun, fraction_eq, hlt, divisor_eq⟩ :=
    @exists_foldlM_addDigit 0 1 digits 0 hdigits hbound (by decide) (by decide)
  rw [Nat.zero_add] at divisor_eq
  exact ⟨fraction, divisor, hrun, fraction_eq, hlt, divisor_eq⟩

/-- The digits that count have a number below a divisor of at most `10 ^ 18`. -/
theorem exists_countDigits (hdigits : ∀ c ∈ digits, c.isDigit = true) :
    ∃ fraction divisor, countDigits digits = .ok (fraction, divisor)
      ∧ fraction.toNat = digitsValue (digits.take Term.maxFractionDigits) ∧ fraction.toNat < divisor.toNat
      ∧ divisor.toNat = 10 ^ (digits.take Term.maxFractionDigits).length := by
  rw [countDigits, take_bytes_of_digits hdigits]
  exact exists_countedDigits (fun c hc => hdigits c (List.mem_of_mem_take hc)) (List.length_take_le _ _)

/-- A fraction below its divisor of at most `10 ^ 18` may be taken of any unit. -/
theorem exists_fractionPart {places : Nat} (unit : TimeUnit) (hlt : fraction.toNat < divisor.toNat)
    (hdivisor : divisor.toNat = 10 ^ places) (hplaces : places ≤ Term.maxFractionDigits) :
    ∃ scaled part, mul fraction (scale unit) = .ok scaled ∧ div scaled divisor = .ok part
      ∧ part.toNat = fraction.toNat * unit.nanos / 10 ^ places := by
  have hpow : 10 ^ places ≤ 10 ^ 18 := Nat.pow_le_pow_right (by decide) hplaces
  have hunit : unit.nanos ≤ 3600 * 10 ^ 9 := unit.nanos_le_hour
  have hproduct : fraction.toNat * unit.nanos ≤ 10 ^ 18 * (3600 * 10 ^ 9) := Nat.mul_le_mul (by omega) hunit
  have hmul : Exact (mul fraction (scale unit)) (fraction.toNat * unit.nanos) :=
    toNat_scale unit ▸ exact_mul fraction (scale unit)
  obtain ⟨scaled, hmul, scaled_eq⟩ := hmul.exists_ok (by omega)
  have hpos : 0 < divisor.toNat := by omega
  obtain ⟨part, hdiv, part_eq⟩ := exists_div (a := scaled) (ne_zero_of_toNat_pos hpos)
  refine ⟨scaled, part, hmul, hdiv, ?_⟩
  rw [part_eq, scaled_eq, hdivisor]

end Digits

section Terms

variable {total : BitVec 128} {t : Term}

/-- A number that is checked is one of 128 bits or none. -/
theorem map_toOption {x : Guarded (BitVec 128)} {n : Nat} (h : Exact x n) :
    x.toOption.map BitVec.toNat = Term.checked n := by
  unfold Term.checked
  split
  · rename_i hfits
    obtain ⟨c, rfl, hc⟩ := h.exists_ok hfits
    exact congrArg some hc
  · rename_i hover
    cases x with
    | error fault => rfl
    | ok c =>
      have hc := (h c).1 rfl
      have hlt := c.isLt
      omega

theorem map_toOption_bind {x : Guarded (BitVec 128)} {n : Nat} {f : BitVec 128 → Option (BitVec 128)}
    {g : Nat → Option Nat} (h : Exact x n) (hnext : ∀ c, (f c).map BitVec.toNat = g c.toNat) :
    (x.toOption.bind f).map BitVec.toNat = (Term.checked n).bind g := by
  rw [← map_toOption h]
  cases x.toOption with
  | none => rfl
  | some c => exact hnext c

theorem map_sums (whole unit part total : BitVec 128) :
    ((mul whole unit).toOption.bind fun n => (add n part).toOption.bind fun n =>
        (add n total).toOption).map BitVec.toNat
      = (Term.checked (whole.toNat * unit.toNat)).bind fun n => (Term.checked (n + part.toNat)).bind fun n =>
        Term.checked (n + total.toNat) :=
  map_toOption_bind (exact_mul whole unit) fun n =>
    map_toOption_bind (exact_add n part) fun n => map_toOption (exact_add n total)

/-- The term is added without a fault, as to any total of natural numbers. -/
theorem exists_addTerm (hdigits : ∀ c ∈ t.fraction, c.isDigit = true) :
    ∃ next, addTerm total t = .ok next ∧ next.map BitVec.toNat = Term.addTo? total.toNat t := by
  obtain ⟨fraction, divisor, hcount, fraction_eq, hlt, divisor_eq⟩ := exists_countDigits hdigits
  obtain ⟨scaled, part, hmul, hdiv, part_eq⟩ := exists_fractionPart t.unit hlt divisor_eq (List.length_take_le _ _)
  have hscale := toNat_scale t.unit
  have hpart : part.toNat = t.fractionNanos := by
    rw [part_eq, fraction_eq]
    rfl
  rw [addTerm, wholePart, Term.addTo?, Term.nanos?]
  by_cases hwhole : digitsValue t.whole < 2 ^ 128
  · have hword : (BitVec.ofNat 128 (digitsValue t.whole)).toNat = digitsValue t.whole := by
      rw [BitVec.toNat_ofNat, Nat.mod_eq_of_lt hwhole]
    rw [Term.checked, if_pos hwhole]
    simp only [Option.map_some, hcount, hmul, hdiv, ok_bind]
    refine ⟨_, rfl, ?_⟩
    have hsums := map_sums (BitVec.ofNat 128 (digitsValue t.whole)) (scale t.unit) part total
    rw [hword, hscale, hpart] at hsums
    exact hsums.trans (Option.bind_assoc _ _ _).symm
  · rw [Term.checked, if_neg hwhole]
    exact ⟨none, rfl, rfl⟩

end Terms

/-! ## Rounds -/

/-- Where the loop stands: what is added up so far, and the text that is left. -/
structure Reading where
  total : BitVec 128
  rest : List Char

namespace Reading

/-- Adds the first term that is left. A text that begins with none is refused, as is too large a total. -/
def round (r : Reading) : Guarded (Option Reading) := do
  match ← readTerm r.rest with
  | none => return none
  | some (t, rest) => return (← addTerm r.total t).map fun total => ⟨total, rest⟩

/-- Rounds until no text is left. -/
def run (r : Reading) : Guarded (Option (BitVec 128)) :=
  if r.rest = [] then .ok (some r.total)
  else do
    match ← r.round with
    | none => return none
    | some next => if _ : (bytes next.rest).length < (bytes r.rest).length then next.run else .error .standstill
termination_by (bytes r.rest).length

end Reading

theorem length_bytes_lt_of_read? {s rest : List Char} {t : Term} (h : Term.read? s = some (t, rest)) :
    (bytes rest).length < (bytes s).length := by
  have hshort := Term.length_read?_lt h
  obtain ⟨text, rfl, -, -⟩ := Term.exists_spells_of_read? h
  cases text with
  | nil => exact absurd hshort (Nat.lt_irrefl _)
  | cons c text =>
    have hpos := c.utf8Size_pos
    rw [bytes_append, List.length_append, length_bytes_cons]
    omega

/-- What a round can do: refuse the text, or take its first term off and add it, if the total fits. -/
theorem Reading.round_cases (r : Reading) :
    (Term.read? r.rest = none ∧ r.round = .ok none)
    ∨ ∃ t rest, ∃ next : Option (BitVec 128), Term.read? r.rest = some (t, rest)
      ∧ (bytes rest).length < (bytes r.rest).length
      ∧ r.round = .ok (next.map fun total => ⟨total, rest⟩)
      ∧ next.map BitVec.toNat = Term.addTo? r.total.toNat t := by
  cases hread : Term.read? r.rest with
  | none =>
    refine .inl ⟨rfl, ?_⟩
    rw [round, readTerm_eq, ok_bind, hread]
    rfl
  | some found =>
    obtain ⟨t, rest⟩ := found
    obtain ⟨text, -, hspells, -⟩ := Term.exists_spells_of_read? hread
    obtain ⟨next, hadd, hnext⟩ := @exists_addTerm r.total t hspells.isDigit_fraction
    refine .inr ⟨t, rest, next, rfl, length_bytes_lt_of_read? hread, ?_, hnext⟩
    rw [round, readTerm_eq, ok_bind, hread]
    dsimp only
    rw [hadd, ok_bind]
    rfl

/-- The first term may be added before the others are split off. -/
theorem bind_foldlM_addTo? (total : Nat) (t : Term) (others : Option (List Term)) :
    ((others.map (t :: ·)).bind fun terms => terms.foldlM Term.addTo? total)
      = (Term.addTo? total t).bind fun total => others.bind fun terms => terms.foldlM Term.addTo? total := by
  cases others with
  | none => cases Term.addTo? total t <;> rfl
  | some terms => rfl

/-- The loop ends without a fault, with the sum of the terms if the text is one of terms and the sum fits. -/
theorem Reading.exists_run (r : Reading) :
    ∃ total, r.run = .ok total
      ∧ total.map BitVec.toNat = (Term.sequence? r.rest).bind fun terms => terms.foldlM Term.addTo? r.total.toNat := by
  -- Induction on the bytes that are left: every round leaves fewer.
  obtain ⟨n, hn⟩ : ∃ n, (bytes r.rest).length = n := ⟨_, rfl⟩
  induction n using Nat.strongRecOn generalizing r with
  | _ n ih =>
    subst hn
    rw [run]
    by_cases hnil : r.rest = []
    · rw [if_pos hnil, hnil, Term.sequence?]
      exact ⟨_, rfl, rfl⟩
    rw [if_neg hnil, Term.sequence?_of_ne_nil hnil]
    rcases r.round_cases with ⟨hread, hround⟩ | ⟨t, rest, next, hread, hshort, hround, hnext⟩
    · rw [hround, hread]
      exact ⟨none, rfl, rfl⟩
    rw [hround, hread, ok_bind, Option.bind_some, bind_foldlM_addTo?, ← hnext]
    cases next with
    | none => exact ⟨none, rfl, rfl⟩
    | some total =>
      obtain ⟨last, hrun, hlast⟩ := ih _ hshort ⟨total, rest⟩ rfl
      exact ⟨last, (dif_pos hshort).trans hrun, hlast⟩

/-! ## Whole durations -/

/-- So many seconds, and nanoseconds that make no second. -/
def make (seconds : BitVec 64) (nanos : BitVec 32) : Guarded Duration :=
  if h : nanos.toNat < 10 ^ 9 then
    .ok ⟨seconds.toNat * 10 ^ 9 + nanos.toNat, by have := seconds.isLt; omega⟩
  else .error .carry

/-- The duration of a total, if 64 bits hold its seconds. -/
def duration (total : BitVec 128) : Guarded (Option Duration) := do
  let seconds ← div total (scale .second)
  let nanos ← rem total (scale .second)
  if seconds.toNat < 2 ^ 64 then return some (← make (seconds.setWidth 64) (nanos.setWidth 32))
  else return none

theorem duration_eq (total : BitVec 128) : duration total = .ok (Duration.ofNanos? total.toNat) := by
  have hsecond : TimeUnit.second.nanos = 10 ^ 9 := rfl
  obtain ⟨seconds, hdiv, seconds_eq⟩ := exists_div_scale total .second
  obtain ⟨nanos, hrem, nanos_eq⟩ := exists_rem_scale total .second
  rw [hsecond] at seconds_eq nanos_eq
  rw [duration, hdiv, ok_bind, hrem, ok_bind]
  by_cases hfits : seconds.toNat < 2 ^ 64
  · have hseconds : (seconds.setWidth 64).toNat = seconds.toNat := by
      rw [BitVec.toNat_setWidth, Nat.mod_eq_of_lt hfits]
    have hnanos : (nanos.setWidth 32).toNat = nanos.toNat := by
      rw [BitVec.toNat_setWidth, Nat.mod_eq_of_lt (by omega)]
    have hmake : make (seconds.setWidth 64) (nanos.setWidth 32) = .ok ⟨total.toNat, by omega⟩ := by
      rw [make, dif_pos (by omega)]
      congr 2
      omega
    rw [if_pos hfits, hmake, ok_bind, Duration.ofNanos?, dif_pos (by omega)]
    rfl
  · rw [if_neg hfits, Duration.ofNanos?, dif_neg (by omega)]
    rfl

def parse (s : List Char) : Guarded (Option Duration) :=
  if Duration.unsigned s = ['0'] then .ok (some .zero)
  else if Duration.unsigned s = [] then .ok none
  else do
    match ← Reading.run ⟨0, Duration.unsigned s⟩ with
    | none => return none
    | some total => duration total

/-- No text makes the reader in words fail, and it reads what is read in natural numbers. -/
theorem parse_eq (s : List Char) : parse s = .ok (Duration.ofChars? s) := by
  unfold parse Duration.ofChars?
  split
  · rfl
  split
  · rfl
  obtain ⟨total, hrun, htotal⟩ := Reading.exists_run ⟨0, Duration.unsigned s⟩
  have hread : ((Term.sequence? (Duration.unsigned s)).bind fun terms => (Term.total? terms).bind Duration.ofNanos?)
      = (total.map BitVec.toNat).bind Duration.ofNanos? := by
    rw [htotal, Option.bind_assoc]
    rfl
  rw [hrun, ok_bind]
  refine Eq.trans ?_ (congrArg Except.ok hread.symm)
  cases total with
  | none => rfl
  | some total => exact duration_eq total

end Guarded

end JsonWire
