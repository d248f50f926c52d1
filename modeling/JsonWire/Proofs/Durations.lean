/-
  JsonWire.Proofs.Durations — a written duration is read back.

  The written form of a duration spells a few terms (`Duration.terms`, `spells_chars`), each
  with digits before its unit. A decimal stands for the whole nanoseconds it was written
  from (`nanos_ofDecimal`): the zeros that its fraction leaves out are the ones at the end
  (`digitsValue_fractionDigits`). So the sum of the terms is the duration (`sum_terms`), and
  reading the text gives it again (`parse_text`). Every duration that seconds of 64 bits
  can hold takes part (`written_durations_come_back`).
-/

import JsonWire.Duration.Text
import JsonWire.Proofs.DurationGrammar
import JsonWire.Proofs.Results

namespace JsonWire

open Text

/-! ## Digits -/

namespace Text

theorem digitsValue_toDigits (n : Nat) : digitsValue (Nat.toDigits 10 n) = n :=
  Nat.ofDigitChars_toDigits (by decide) (by decide)

theorem digitsValue_digitChar_cons {d : Nat} (hd : d < 10) (digits : List Char) :
    digitsValue (Nat.digitChar d :: digits) = d * 10 ^ digits.length + digitsValue digits := by
  have hcons : digitsValue (Nat.digitChar d :: digits) = Nat.ofDigitChars 10 digits (10 * 0 + d) :=
    Nat.ofDigitChars_cons_digitChar_of_lt_ten hd
  rw [hcons, Nat.ofDigitChars_eq_ofDigitChars_zero, Nat.mul_comm, Nat.mul_zero, Nat.zero_add]
  rfl

end Text

/-! ## Written terms -/

namespace Term

/-- A fraction behind its point. -/
def point : List Char → List Char
  | [] => []
  | fraction => '.' :: fraction

def chars (t : Term) : List Char := t.whole ++ (point t.fraction ++ t.unit.symbol)

/-- Digits in both parts, some of them before the point. -/
structure Written (t : Term) : Prop where
  whole_ne_nil : t.whole ≠ []
  whole_digits : ∀ c ∈ t.whole, c.isDigit = true
  fraction_digits : ∀ c ∈ t.fraction, c.isDigit = true

theorem Written.spells {t : Term} (h : t.Written) : Spells t.chars t := by
  obtain ⟨whole, fraction, unit⟩ := t
  have hsymbol := TimeUnit.ofSymbol?_eq_some_iff.1 (TimeUnit.ofSymbol?_symbol unit)
  cases fraction with
  | nil => exact .plain h.whole_ne_nil h.whole_digits hsymbol
  | cons digit digits => exact .pointed (.inl h.whole_ne_nil) h.whole_digits h.fraction_digits hsymbol

theorem spellsAll_flatMap_chars {terms : List Term} (h : ∀ t ∈ terms, t.Written) :
    SpellsAll (terms.flatMap chars) terms := by
  induction terms with
  | nil => exact .nil
  | cons t rest ih =>
    exact .cons (h t List.mem_cons_self).spells (ih fun t ht => h t (List.mem_cons_of_mem _ ht))

end Term

/-! ## Written numbers -/

theorem Duration.decimal_eq (n places : Nat) :
    decimal n places
      = Nat.toDigits 10 (n / 10 ^ places) ++ Term.point (fractionDigits places (n % 10 ^ places)) := by
  unfold decimal
  dsimp only
  split <;> simp [*, Term.point]

namespace Term

/-- The term that `n / 10 ^ places` of a unit is written as. -/
def ofDecimal (n places : Nat) (unit : TimeUnit) : Term :=
  ⟨Nat.toDigits 10 (n / 10 ^ places), Duration.fractionDigits places (n % 10 ^ places), unit⟩

theorem isDigit_of_mem_fractionDigits {places n : Nat} (h : n < 10 ^ places) :
    ∀ c ∈ Duration.fractionDigits places n, c.isDigit = true := by
  induction places generalizing n with
  | zero => nofun
  | succ places ih =>
    intro c hc
    rw [Duration.fractionDigits] at hc
    split at hc
    · cases hc
    · rcases List.mem_cons.1 hc with rfl | hc
      · rw [Nat.isDigit_digitChar, decide_eq_true_eq, Nat.div_lt_iff_lt_mul (Nat.pow_pos (by decide)),
          Nat.mul_comm]
        exact h
      · exact ih (Nat.mod_lt _ (Nat.pow_pos (by decide))) c hc

theorem length_fractionDigits_le (places n : Nat) : (Duration.fractionDigits places n).length ≤ places := by
  induction places generalizing n with
  | zero => exact Nat.le_refl 0
  | succ places ih =>
    rw [Duration.fractionDigits]
    split
    · exact Nat.zero_le _
    · exact Nat.succ_le_succ (ih _)

/-- The zeros that a fraction leaves out are the ones at its end. -/
theorem digitsValue_fractionDigits {places n : Nat} (h : n < 10 ^ places) :
    digitsValue (Duration.fractionDigits places n)
      * 10 ^ (places - (Duration.fractionDigits places n).length) = n := by
  induction places generalizing n with
  | zero =>
    obtain rfl : n = 0 := by simpa using h
    rfl
  | succ places ih =>
    have hdigit : n / 10 ^ places < 10 := by
      rw [Nat.div_lt_iff_lt_mul (Nat.pow_pos (by decide)), Nat.mul_comm]
      exact h
    have hrest := ih (Nat.mod_lt n (Nat.pow_pos (n := places) (by decide : 0 < 10)))
    have hlength := length_fractionDigits_le places (n % 10 ^ places)
    rw [Duration.fractionDigits]
    split
    · rename_i hzero
      rw [hzero]
      exact Nat.zero_mul _
    · rw [digitsValue_digitChar_cons hdigit, List.length_cons, Nat.succ_sub_succ, Nat.add_mul, hrest,
        Nat.mul_assoc, ← Nat.pow_add, Nat.add_sub_cancel' hlength]
      exact Nat.div_add_mod' n (10 ^ places)

theorem written_ofDecimal (n places : Nat) (unit : TimeUnit) : (ofDecimal n places unit).Written where
  whole_ne_nil := Nat.toDigits_ne_nil
  whole_digits _ hc := Nat.isDigit_of_mem_toDigits (by decide) (by decide) hc
  fraction_digits := isDigit_of_mem_fractionDigits (Nat.mod_lt _ (Nat.pow_pos (by decide)))

theorem chars_ofDecimal (n places : Nat) (unit : TimeUnit) :
    (ofDecimal n places unit).chars = Duration.decimal n places ++ unit.symbol := by
  rw [Duration.decimal_eq, List.append_assoc]
  rfl

section Nanos

variable {n places k : Nat} {unit : TimeUnit}

theorem fractionNanos_ofDecimal (hunit : unit.nanos = k * 10 ^ places) (hplaces : places ≤ maxFractionDigits) :
    (ofDecimal n places unit).fractionNanos = k * (n % 10 ^ places) := by
  have hlength := length_fractionDigits_le places (n % 10 ^ places)
  have hvalue := digitsValue_fractionDigits (Nat.mod_lt n (Nat.pow_pos (n := places) (by decide : 0 < 10)))
  simp only [fractionNanos, ofDecimal, List.take_of_length_le (Nat.le_trans hlength hplaces), hunit]
  generalize Duration.fractionDigits places (n % 10 ^ places) = digits at *
  have hsplit : digitsValue digits * (k * 10 ^ places)
      = k * (digitsValue digits * 10 ^ (places - digits.length)) * 10 ^ digits.length := by
    rw [Nat.mul_assoc, Nat.mul_assoc, ← Nat.pow_add, Nat.sub_add_cancel hlength, Nat.mul_left_comm]
  rw [hsplit, Nat.mul_div_cancel _ (Nat.pow_pos (by decide)), hvalue]

/-- A decimal with no more places than its unit stands for what it was written from. -/
theorem nanos_ofDecimal (hunit : unit.nanos = k * 10 ^ places) (hplaces : places ≤ maxFractionDigits) :
    (ofDecimal n places unit).nanos = k * n := by
  have hwhole : digitsValue (ofDecimal n places unit).whole = n / 10 ^ places := digitsValue_toDigits _
  rw [nanos_eq, hwhole, fractionNanos_ofDecimal hunit hplaces, show (ofDecimal n places unit).unit = unit from rfl,
    hunit, Nat.mul_left_comm, ← Nat.mul_add, Nat.div_add_mod']

/-- A count that is left out only where it is zero. -/
theorem sum_count {p : Prop} [Decidable p] (hzero : ¬ p → n = 0) :
    sum (if p then [ofDecimal n 0 unit] else []) = unit.nanos * n := by
  split
  · rw [sum, nanos_ofDecimal (Nat.mul_one _).symm (Nat.zero_le _)]
    rfl
  · rename_i hp
    rw [hzero hp]
    rfl

end Nanos

end Term

/-! ## The written form -/

namespace Duration

/-- The terms of the written form. -/
def terms (d : Duration) : List Term :=
  let n := d.nanos
  if n = 0 then [.ofDecimal 0 0 .second]
  else if n < 10 ^ 3 then [.ofDecimal n 0 .nanosecond]
  else if n < 10 ^ 6 then [.ofDecimal n 3 .microsecond]
  else if n < 10 ^ 9 then [.ofDecimal n 6 .millisecond]
  else
    let hours := n / TimeUnit.hour.nanos
    let minutes := n % TimeUnit.hour.nanos / TimeUnit.minute.nanos
    let rest := n % TimeUnit.minute.nanos
    (if 0 < hours then [.ofDecimal hours 0 .hour] else [])
      ++ (if 0 < hours ∨ 0 < minutes then [.ofDecimal minutes 0 .minute] else [])
      ++ [.ofDecimal rest 9 .second]

theorem written_of_mem_terms (d : Duration) : ∀ t ∈ d.terms, t.Written := by
  intro t ht
  have hform : ∃ n places unit, t = .ofDecimal n places unit := by
    unfold terms at ht
    grind
  obtain ⟨n, places, unit, rfl⟩ := hform
  exact Term.written_ofDecimal n places unit

theorem decimal_zero (n : Nat) : decimal n 0 = Nat.toDigits 10 n := by
  simp [decimal, fractionDigits]

theorem chars_eq (d : Duration) : d.chars = d.terms.flatMap Term.chars := by
  unfold chars terms
  dsimp only
  split
  · rfl
  split
  · simp [Term.chars_ofDecimal]
  split
  · simp [Term.chars_ofDecimal]
  split
  · simp [Term.chars_ofDecimal]
  · split <;> split <;> simp [Term.chars_ofDecimal, count, decimal_zero]

theorem terms_ne_nil (d : Duration) : d.terms ≠ [] := by
  unfold terms
  dsimp only
  repeat' split
  all_goals simp

theorem sum_terms (d : Duration) : Term.sum d.terms = d.nanos := by
  have single {n places : Nat} {unit : TimeUnit} (hunit : unit.nanos = 10 ^ places)
      (hplaces : places ≤ Term.maxFractionDigits) : Term.sum [.ofDecimal n places unit] = n := by
    have hnanos := Term.nanos_ofDecimal (n := n) (hunit.trans (Nat.one_mul _).symm) hplaces
    rw [Term.sum, hnanos, Nat.one_mul]
    rfl
  unfold terms
  dsimp only
  split
  · rename_i hzero
    rw [hzero]
    rfl
  split
  · exact single rfl (by decide)
  split
  · exact single rfl (by decide)
  split
  · exact single rfl (by decide)
  · have hhours : TimeUnit.hour.nanos = 3600000000000 := rfl
    have hminutes : TimeUnit.minute.nanos = 60000000000 := rfl
    rw [hhours, hminutes, Term.sum_append, Term.sum_append, Term.sum_count (by omega), Term.sum_count (by omega),
      single rfl (by decide), hhours, hminutes]
    omega

/-! ## Reading it -/

theorem spells_chars (d : Duration) : Spells d.chars d.terms := by
  rw [chars_eq]
  exact .plain (.terms d.terms_ne_nil (Term.spellsAll_flatMap_chars d.written_of_mem_terms))

theorem ofChars?_chars (d : Duration) : ofChars? d.chars = some d :=
  ofChars?_eq_some_iff.2 ⟨d.terms, d.spells_chars, d.sum_terms.symm⟩

theorem parse_text (d : Duration) : parse d.text = .ok d := by
  rw [parse_eq_ok_iff, text, String.toList_ofList]
  exact d.ofChars?_chars

theorem text_injective : Function.Injective text := by
  intro d other h
  have hread := parse_text d
  rw [h, parse_text] at hread
  exact (Except.ok.inj hread).symm

end Duration

theorem Codec.decode_duration_text (d : Duration) : (duration.decode (.str d.text)).result = .ok d := by
  simp [duration, expecting, Json.string?, Duration.parse_text]

namespace Duration

/-- Any seconds of 64 bits and any nanoseconds below a second are those of exactly one duration. Every
duration is read back from its text, which no other has, and from its encoding. -/
theorem written_durations_come_back :
    (∀ (seconds : Fin (2 ^ 64)) (subsecond : Fin (10 ^ 9)),
      ∃! d : Duration, d.seconds = seconds ∧ d.subsecond = subsecond)
    ∧ (∀ d, parse d.text = .ok d) ∧ Function.Injective text
    ∧ ∀ d, ∃ json, (Codec.duration.encode d).result = .ok json ∧ (Codec.duration.decode json).result = .ok d := by
  refine ⟨fun seconds subsecond => ?_, parse_text, text_injective,
    fun d => ⟨.str d.text, rfl, Codec.decode_duration_text d⟩⟩
  obtain ⟨s, hs⟩ := seconds
  obtain ⟨n, hn⟩ := subsecond
  refine ⟨⟨s * 10 ^ 9 + n, by omega⟩, ⟨?_, ?_⟩, ?_⟩
  · show (s * 10 ^ 9 + n) / 10 ^ 9 = s
    omega
  · show (s * 10 ^ 9 + n) % 10 ^ 9 = n
    omega
  · rintro ⟨m, hm⟩ ⟨hseconds, hsubsecond⟩
    simp only [Duration.seconds, Duration.subsecond] at hseconds hsubsecond
    simp only [Duration.mk.injEq]
    omega

end Duration

end JsonWire
