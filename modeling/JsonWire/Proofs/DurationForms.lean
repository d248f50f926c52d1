/-
  JsonWire.Proofs.DurationForms — which texts are the written form of a duration.

  Writing has seven layouts (`Canonical`): zero, a number of nanoseconds, microseconds or
  milliseconds up to the next unit, and seconds alone, with minutes, or with minutes and
  hours. Numbers have no zero in front (`Numeral`) and fractions none at the end
  (`Trimmed`), and both determine their digits: a numeral is the one that is written
  (`numeral_iff`), and a fraction is that of a number of the smallest unit
  (`exists_fractionDigits`). So every canonical text is written for some duration, every
  duration is written canonically, and as reading undoes writing, a canonical text is
  read and written again as it was (`canonical_texts_are_written`).
-/

import JsonWire.Proofs.Durations

namespace JsonWire

open Text

/-! ## Layouts -/

namespace Duration

/-- Decimal digits of a number, without a zero in front but that of `0`. -/
structure Numeral (n : Nat) (digits : List Char) : Prop where
  ne_nil : digits ≠ []
  isDigit : ∀ c ∈ digits, c.isDigit = true
  eq_zero_of_head : digits.head? = some '0' → digits = ['0']
  value : Nat.ofDigitChars 10 digits 0 = n

/-- Digits behind a point, none of them a zero at the end. No digits stand for no point. -/
structure Trimmed (places : Nat) (fraction : List Char) : Prop where
  isDigit : ∀ c ∈ fraction, c.isDigit = true
  length_le : fraction.length ≤ places
  getLast?_ne : fraction.getLast? ≠ some '0'

inductive Canonical : List Char → Prop
  | zero : Canonical ['0', 's']
  | nanoseconds {n : Nat} {digits : List Char} : 1 ≤ n → n ≤ 999 → Numeral n digits →
      Canonical (digits ++ ['n', 's'])
  | microseconds {w : Nat} {digits fraction : List Char} : 1 ≤ w → w ≤ 999 → Numeral w digits →
      Trimmed 3 fraction → Canonical (digits ++ Term.point fraction ++ ['\u00b5', 's'])
  | milliseconds {w : Nat} {digits fraction : List Char} : 1 ≤ w → w ≤ 999 → Numeral w digits →
      Trimmed 6 fraction → Canonical (digits ++ Term.point fraction ++ ['m', 's'])
  | seconds {s : Nat} {seconds fraction : List Char} : 1 ≤ s → s ≤ 59 → Numeral s seconds → Trimmed 9 fraction →
      Canonical (seconds ++ Term.point fraction ++ ['s'])
  | minutes {m s : Nat} {minutes seconds fraction : List Char} : 1 ≤ m → m ≤ 59 → s ≤ 59 → Numeral m minutes →
      Numeral s seconds → Trimmed 9 fraction →
      Canonical (minutes ++ ['m'] ++ (seconds ++ Term.point fraction ++ ['s']))
  | hours {h m s : Nat} {hours minutes seconds fraction : List Char} : 1 ≤ h → m ≤ 59 → s ≤ 59 →
      3600 * h + 60 * m + s < 2 ^ 64 → Numeral h hours → Numeral m minutes → Numeral s seconds →
      Trimmed 9 fraction →
      Canonical (hours ++ ['h'] ++ (minutes ++ ['m'] ++ (seconds ++ Term.point fraction ++ ['s'])))

/-! ## Numerals -/

theorem digitChar_toNat_sub {c : Char} (h : c.isDigit = true) : Nat.digitChar (c.toNat - '0'.toNat) = c := by
  have hzero : '0'.toNat = 48 := rfl
  obtain ⟨hlow, hhigh⟩ := isDigit_iff.1 h
  refine Char.toNat_inj.1 ?_
  rw [Nat.toNat_digitChar_of_lt_ten (by omega)]
  omega

/-- Digits behind a number that is not zero are written as they stand. -/
theorem toDigits_ofDigitChars {digits : List Char} {n : Nat} (hn : 0 < n)
    (hdigits : ∀ c ∈ digits, c.isDigit = true) :
    Nat.toDigits 10 (Nat.ofDigitChars 10 digits n) = Nat.toDigits 10 n ++ digits := by
  induction digits generalizing n with
  | nil => simp
  | cons c digits ih =>
    obtain ⟨hc, hrest⟩ := List.forall_mem_cons.1 hdigits
    have hlt := digit_lt_ten hc
    rw [Nat.ofDigitChars_cons, ih (by omega) hrest, ← Nat.toDigits_append_toDigits (by decide) hn hlt,
      Nat.toDigits_of_lt_base hlt, digitChar_toNat_sub hc, List.append_assoc, List.singleton_append]

/-- Only zero is written with a zero in front. -/
theorem toDigits_of_head {n : Nat} (h : (Nat.toDigits 10 n).head? = some '0') : Nat.toDigits 10 n = ['0'] := by
  induction n using Nat.strongRecOn with
  | _ n ih =>
    by_cases hlt : n < 10
    · rw [Nat.toDigits_of_lt_base hlt] at h ⊢
      simpa using h
    · rw [Nat.toDigits_of_base_le (by decide) (by omega), List.head?_append_of_ne_nil _ Nat.toDigits_ne_nil] at h
      have hfront := ih (n / 10) (by omega) h
      have hvalue := digitsValue_toDigits (n / 10)
      rw [hfront] at hvalue
      have : 0 = n / 10 := hvalue
      omega

theorem numeral_iff {n : Nat} {digits : List Char} : Numeral n digits ↔ digits = Nat.toDigits 10 n := by
  constructor
  · intro h
    obtain ⟨c, rest, rfl⟩ := List.exists_cons_of_ne_nil h.ne_nil
    obtain ⟨hc, hrest⟩ := List.forall_mem_cons.1 h.isDigit
    by_cases hzero : c = '0'
    · subst hzero
      have hvalue := h.value
      rw [h.eq_zero_of_head rfl] at hvalue ⊢
      rw [← hvalue]
      rfl
    · obtain ⟨hlow, hhigh⟩ := isDigit_iff.1 hc
      have hne : c.toNat ≠ '0'.toNat := fun h => hzero (Char.toNat_inj.1 h)
      have hfirst : '0'.toNat = 48 := rfl
      rw [← h.value, Nat.ofDigitChars_cons, toDigits_ofDigitChars (by omega) hrest, Nat.mul_zero, Nat.zero_add,
        Nat.toDigits_of_lt_base (by omega), digitChar_toNat_sub hc, List.singleton_append]
  · rintro rfl
    exact ⟨Nat.toDigits_ne_nil, fun c hc => Nat.isDigit_of_mem_toDigits (by decide) (by decide) hc, toDigits_of_head,
      digitsValue_toDigits n⟩

/-! ## Fractions -/

theorem fractionDigits_eq_nil_iff {places n : Nat} (h : n < 10 ^ places) : fractionDigits places n = [] ↔ n = 0 := by
  constructor
  · intro hnil
    have hvalue := Term.digitsValue_fractionDigits h
    rw [hnil] at hvalue
    rw [← hvalue]
    exact Nat.zero_mul _
  · rintro rfl
    cases places <;> simp [fractionDigits]

theorem getLast?_fractionDigits_ne {places n : Nat} (h : n < 10 ^ places) :
    (fractionDigits places n).getLast? ≠ some '0' := by
  induction places generalizing n with
  | zero => simp [fractionDigits]
  | succ places ih =>
    have hmod : n % 10 ^ places < 10 ^ places := Nat.mod_lt _ (Nat.pow_pos (by decide))
    have hrest := ih hmod
    rw [fractionDigits]
    split
    · simp
    · rename_i hn
      cases hdigits : fractionDigits places (n % 10 ^ places) with
      | nil =>
        -- All that is left is this digit, so it is not zero.
        have hzero := (fractionDigits_eq_nil_iff hmod).1 hdigits
        intro hlast
        have hdiv := Nat.digitChar_eq_zero.1 (Option.some.inj hlast)
        have hsplit := Nat.div_add_mod n (10 ^ places)
        rw [hdiv, hzero, Nat.mul_zero] at hsplit
        exact hn hsplit.symm
      | cons digit digits =>
        rw [hdigits] at hrest
        rwa [List.getLast?_cons_cons]

theorem trimmed_fractionDigits {places n : Nat} (h : n < 10 ^ places) : Trimmed places (fractionDigits places n) :=
  ⟨Term.isDigit_of_mem_fractionDigits h, Term.length_fractionDigits_le places n, getLast?_fractionDigits_ne h⟩

theorem exists_fractionDigits {places : Nat} {fraction : List Char} (h : Trimmed places fraction) :
    ∃ n < 10 ^ places, fractionDigits places n = fraction := by
  induction places generalizing fraction with
  | zero =>
    obtain rfl : fraction = [] := List.length_eq_zero_iff.1 (Nat.le_zero.1 h.length_le)
    exact ⟨0, Nat.one_pos, rfl⟩
  | succ places ih =>
    cases fraction with
    | nil => exact ⟨0, Nat.pow_pos (by decide), by simp [fractionDigits]⟩
    | cons c rest =>
      obtain ⟨hc, hrest⟩ := List.forall_mem_cons.1 h.isDigit
      have htrimmed : Trimmed places rest := by
        refine ⟨hrest, Nat.le_of_succ_le_succ h.length_le, fun hlast => h.getLast?_ne ?_⟩
        cases rest with
        | nil => cases hlast
        | cons digit digits => rwa [List.getLast?_cons_cons]
      obtain ⟨m, hm, rfl⟩ := ih htrimmed
      have hpos : 0 < 10 ^ places := Nat.pow_pos (by decide)
      have hchar := digitChar_toNat_sub hc
      have hdigit : c.toNat - '0'.toNat ≤ 9 := Nat.le_of_lt_succ (digit_lt_ten hc)
      generalize c.toNat - '0'.toNat = d at *
      have hbound : 10 ^ places * d ≤ 10 ^ places * 9 := Nat.mul_le_mul_left _ hdigit
      refine ⟨10 ^ places * d + m, by omega, ?_⟩
      have hne : 10 ^ places * d + m ≠ 0 := by
        intro hzero
        obtain ⟨hd, rfl⟩ := Nat.add_eq_zero_iff.1 hzero
        obtain rfl : d = 0 := (Nat.mul_eq_zero.1 hd).resolve_left (Nat.ne_of_gt hpos)
        refine h.getLast?_ne ?_
        rw [(fractionDigits_eq_nil_iff hm).2 rfl, ← hchar]
        rfl
      rw [fractionDigits, if_neg hne, Nat.mul_add_div hpos, Nat.mul_add_mod, Nat.div_eq_of_lt hm, Nat.mod_eq_of_lt hm,
        Nat.add_zero, hchar]

/-! ## Decimals -/

theorem exists_decimal (n places : Nat) :
    ∃ digits fraction, decimal n places = digits ++ Term.point fraction ∧ Numeral (n / 10 ^ places) digits
      ∧ Trimmed places fraction :=
  ⟨_, _, decimal_eq n places, numeral_iff.2 rfl, trimmed_fractionDigits (Nat.mod_lt _ (Nat.pow_pos (by decide)))⟩

theorem exists_eq_decimal {w places : Nat} {digits fraction : List Char} (hdigits : Numeral w digits)
    (hfraction : Trimmed places fraction) :
    ∃ n, n / 10 ^ places = w ∧ decimal n places = digits ++ Term.point fraction := by
  obtain ⟨m, hm, rfl⟩ := exists_fractionDigits hfraction
  obtain rfl := numeral_iff.1 hdigits
  have hpos : 0 < 10 ^ places := Nat.pow_pos (by decide)
  have hwhole : (10 ^ places * w + m) / 10 ^ places = w := by
    rw [Nat.mul_add_div hpos, Nat.div_eq_of_lt hm, Nat.add_zero]
  refine ⟨10 ^ places * w + m, hwhole, ?_⟩
  rw [decimal_eq, hwhole, Nat.mul_add_mod, Nat.mod_eq_of_lt hm]

/-! ## Written forms -/

section Layouts

variable {d : Duration}

theorem chars_of_lt_micro (hpos : 0 < d.nanos) (hlt : d.nanos < 10 ^ 3) : d.chars = decimal d.nanos 0 ++ ['n', 's'] := by
  unfold chars
  dsimp only
  rw [if_neg (by omega), if_pos hlt]
  rfl

theorem chars_of_lt_milli (hge : 10 ^ 3 ≤ d.nanos) (hlt : d.nanos < 10 ^ 6) :
    d.chars = decimal d.nanos 3 ++ ['\u00b5', 's'] := by
  unfold chars
  dsimp only
  rw [if_neg (by omega), if_neg (by omega), if_pos hlt]
  rfl

theorem chars_of_lt_second (hge : 10 ^ 6 ≤ d.nanos) (hlt : d.nanos < 10 ^ 9) :
    d.chars = decimal d.nanos 6 ++ ['m', 's'] := by
  unfold chars
  dsimp only
  rw [if_neg (by omega), if_neg (by omega), if_neg (by omega), if_pos hlt]
  rfl

/-- From a second on, in hours, minutes and the nanoseconds that are left. -/
theorem chars_of_clock {h m r : Nat} (hd : d.nanos = 3600 * 10 ^ 9 * h + 60 * 10 ^ 9 * m + r) (hm : m ≤ 59)
    (hr : r < 60 * 10 ^ 9) (hge : 10 ^ 9 ≤ d.nanos) :
    d.chars = (if 0 < h then count h .hour else [])
      ++ ((if 0 < h ∨ 0 < m then count m .minute else []) ++ (decimal r 9 ++ ['s'])) := by
  have hhours : d.nanos / TimeUnit.hour.nanos = h := by
    show d.nanos / 3600000000000 = h
    omega
  have hminutes : d.nanos % TimeUnit.hour.nanos / TimeUnit.minute.nanos = m := by
    show d.nanos % 3600000000000 / 60000000000 = m
    omega
  have hrest : d.nanos % TimeUnit.minute.nanos = r := by
    show d.nanos % 60000000000 = r
    omega
  unfold chars
  dsimp only
  rw [if_neg (by omega), if_neg (by omega), if_neg (by omega), if_neg (by omega), hhours, hminutes, hrest,
    List.append_assoc, List.append_assoc]
  rfl

end Layouts

/-- Every duration is written in one of the layouts. -/
theorem canonical_chars (d : Duration) : Canonical d.chars := by
  by_cases hzero : d.nanos = 0
  · have hchars : d.chars = ['0', 's'] := by simp [chars, hzero]
    rw [hchars]
    exact .zero
  by_cases hmicro : d.nanos < 10 ^ 3
  · rw [chars_of_lt_micro (by omega) hmicro]
    exact .nanoseconds (by omega) (by omega) (numeral_iff.2 (decimal_zero d.nanos))
  by_cases hmilli : d.nanos < 10 ^ 6
  · obtain ⟨digits, fraction, hdecimal, hdigits, hfraction⟩ := exists_decimal d.nanos 3
    rw [chars_of_lt_milli (by omega) hmilli, hdecimal]
    exact .microseconds (by omega) (by omega) hdigits hfraction
  by_cases hsecond : d.nanos < 10 ^ 9
  · obtain ⟨digits, fraction, hdecimal, hdigits, hfraction⟩ := exists_decimal d.nanos 6
    rw [chars_of_lt_second (by omega) hsecond, hdecimal]
    exact .milliseconds (by omega) (by omega) hdigits hfraction
  obtain ⟨h, m, r, hd, hm, hr⟩ : ∃ h m r, d.nanos = 3600 * 10 ^ 9 * h + 60 * 10 ^ 9 * m + r ∧ m ≤ 59
      ∧ r < 60 * 10 ^ 9 :=
    ⟨d.nanos / (3600 * 10 ^ 9), d.nanos % (3600 * 10 ^ 9) / (60 * 10 ^ 9), d.nanos % (60 * 10 ^ 9), by omega,
      by omega, by omega⟩
  have hlt := d.nanos_lt
  obtain ⟨seconds, fraction, hdecimal, hseconds, hfraction⟩ := exists_decimal r 9
  rw [chars_of_clock hd hm hr (by omega), hdecimal]
  by_cases hhours : 0 < h
  · rw [if_pos hhours, if_pos (.inl hhours)]
    exact .hours hhours hm (by omega) (by omega) (numeral_iff.2 rfl) (numeral_iff.2 rfl) hseconds hfraction
  by_cases hminutes : 0 < m
  · rw [if_neg hhours, if_pos (.inr hminutes)]
    exact .minutes hminutes hm (by omega) (numeral_iff.2 rfl) hseconds hfraction
  · rw [if_neg hhours, if_neg (by omega)]
    exact .seconds (by omega) (by omega) hseconds hfraction

theorem exists_chars_of_clock {h m s : Nat} {seconds fraction : List Char} (hm : m ≤ 59) (hs : s ≤ 59)
    (hge : 1 ≤ 3600 * h + 60 * m + s) (hlt : 3600 * h + 60 * m + s < 2 ^ 64) (hseconds : Numeral s seconds)
    (hfraction : Trimmed 9 fraction) :
    ∃ d : Duration, d.chars = (if 0 < h then count h .hour else [])
      ++ ((if 0 < h ∨ 0 < m then count m .minute else []) ++ (seconds ++ Term.point fraction ++ ['s'])) := by
  obtain ⟨r, hr, hdecimal⟩ := exists_eq_decimal hseconds hfraction
  have hnanos : 3600 * 10 ^ 9 * h + 60 * 10 ^ 9 * m + r < 2 ^ 64 * 10 ^ 9 := by omega
  have hsecond : 10 ^ 9 ≤ 3600 * 10 ^ 9 * h + 60 * 10 ^ 9 * m + r := by omega
  refine ⟨⟨_, hnanos⟩, ?_⟩
  rw [chars_of_clock rfl hm (by omega) hsecond, hdecimal]

/-- Every layout is written for some duration. -/
theorem exists_chars_of_canonical {s : List Char} (h : Canonical s) : ∃ d : Duration, d.chars = s := by
  cases h with
  | zero => exact ⟨zero, rfl⟩
  | @nanoseconds n digits hlow hhigh hdigits =>
    obtain rfl := numeral_iff.1 hdigits
    have hlt : n < 10 ^ 3 := by omega
    refine ⟨⟨n, by omega⟩, ?_⟩
    rw [chars_of_lt_micro (d := ⟨n, _⟩) hlow hlt, decimal_zero]
  | microseconds hlow hhigh hdigits hfraction =>
    obtain ⟨n, hn, hdecimal⟩ := exists_eq_decimal hdigits hfraction
    have hge : 10 ^ 3 ≤ n := by omega
    have hlt : n < 10 ^ 6 := by omega
    refine ⟨⟨n, by omega⟩, ?_⟩
    rw [chars_of_lt_milli hge hlt, hdecimal]
  | milliseconds hlow hhigh hdigits hfraction =>
    obtain ⟨n, hn, hdecimal⟩ := exists_eq_decimal hdigits hfraction
    have hge : 10 ^ 6 ≤ n := by omega
    have hlt : n < 10 ^ 9 := by omega
    refine ⟨⟨n, by omega⟩, ?_⟩
    rw [chars_of_lt_second hge hlt, hdecimal]
  | seconds hlow hhigh hseconds hfraction =>
    exact exists_chars_of_clock (h := 0) (m := 0) (by decide) hhigh (by omega) (by omega) hseconds hfraction
  | minutes hlow hm hs hminutes hseconds hfraction =>
    obtain rfl := numeral_iff.1 hminutes
    obtain ⟨d, hd⟩ := exists_chars_of_clock (h := 0) hm hs (by omega) (by omega) hseconds hfraction
    rw [if_neg (by decide), if_pos (.inr hlow)] at hd
    exact ⟨d, hd⟩
  | @hours h _ _ _ _ _ _ hlow hm hs hlt hhours hminutes hseconds hfraction =>
    obtain rfl := numeral_iff.1 hhours
    obtain rfl := numeral_iff.1 hminutes
    obtain ⟨d, hd⟩ := exists_chars_of_clock hm hs (by omega) hlt hseconds hfraction
    have hhour : 0 < h := hlow
    rw [if_pos hhour, if_pos (.inl hhour)] at hd
    exact ⟨d, hd⟩

theorem canonical_iff_exists_chars {s : List Char} : Canonical s ↔ ∃ d : Duration, d.chars = s := by
  constructor
  · exact exists_chars_of_canonical
  · rintro ⟨d, rfl⟩
    exact canonical_chars d

/-- The canonical texts are exactly the written forms of durations, and each of them is read as the duration
that it is the written form of. -/
theorem canonical_texts_are_written (s : String) :
    (Canonical s.toList ↔ ∃ d, text d = s) ∧ (Canonical s.toList ↔ ∃ d, parse s = .ok d ∧ text d = s) := by
  have written : Canonical s.toList ↔ ∃ d, text d = s := by
    rw [canonical_iff_exists_chars]
    refine exists_congr fun d => ?_
    rw [text, ← String.toList_inj, String.toList_ofList]
  refine ⟨written, ?_⟩
  rw [written]
  refine exists_congr fun d => ⟨?_, And.right⟩
  rintro rfl
  exact ⟨parse_text d, rfl⟩

/-- A text of another layout is written otherwise than it was read. -/
example : (parse "1h").toOption.map text = some "1h0m0s" := by cbv

end Duration

end JsonWire
