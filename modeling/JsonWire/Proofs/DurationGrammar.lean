/-
  JsonWire.Proofs.DurationGrammar — the texts that stand for a duration.

  A term is spelled by digits, perhaps a point and more digits, and a unit
  (`Term.Spells`); a duration by `0` or by one term after another, behind at most one plus
  sign (`Duration.Spells`). Reading gives back exactly what a text spells: one term ends
  where the next character is a digit or a point (`exists_spells_of_read?`), so there is one
  way only to split a text into terms (`sequence?_eq_some_iff`, `Duration.Spells.unique`).

  What a text is worth is a sum of natural numbers (`Term.nanos`, `Term.sum`). The checks
  against 128 bits reject a sum exactly if it does not fit them (`total?_eq`): no number
  on the way is larger than the sum at its end. Seconds of 64 bits are a smaller bound, so
  that alone decides (`parse_reads_the_grammar`).
-/

import JsonWire.Duration.Term

namespace JsonWire

open Text

/-! ## Texts -/

/-- Every way to write a unit. -/
def TimeUnit.spellings : TimeUnit → List (List Char)
  | .nanosecond => [['n', 's']]
  | .microsecond => [['u', 's'], ['\u00b5', 's'], ['\u03bc', 's']]
  | .millisecond => [['m', 's']]
  | .second => [['s']]
  | .minute => [['m']]
  | .hour => [['h']]

namespace Term

/-- The text of one term. A point needs a digit on one of its sides only. -/
inductive Spells : List Char → Term → Prop
  | plain {digits symbol : List Char} {unit : TimeUnit} : digits ≠ [] → (∀ c ∈ digits, c.isDigit = true) →
      symbol ∈ unit.spellings → Spells (digits ++ symbol) ⟨digits, [], unit⟩
  | pointed {whole fraction symbol : List Char} {unit : TimeUnit} : whole ≠ [] ∨ fraction ≠ [] →
      (∀ c ∈ whole, c.isDigit = true) → (∀ c ∈ fraction, c.isDigit = true) → symbol ∈ unit.spellings →
      Spells (whole ++ '.' :: (fraction ++ symbol)) ⟨whole, fraction, unit⟩

/-- One term after another. -/
inductive SpellsAll : List Char → List Term → Prop
  | nil : SpellsAll [] []
  | cons {text rest : List Char} {t : Term} {terms : List Term} : Spells text t → SpellsAll rest terms →
      SpellsAll (text ++ rest) (t :: terms)

/-- The whole nanoseconds of a term, the first eighteen digits of its fraction counted. -/
def nanos (t : Term) : Nat :=
  let places := min 18 t.fraction.length
  Nat.ofDigitChars 10 t.whole 0 * t.unit.nanos
    + Nat.ofDigitChars 10 (t.fraction.take places) 0 * t.unit.nanos / 10 ^ places

def sum : List Term → Nat
  | [] => 0
  | t :: terms => t.nanos + sum terms

end Term

namespace Duration

/-- `0` stands for no terms. -/
inductive SpellsUnsigned : List Char → List Term → Prop
  | zero : SpellsUnsigned ['0'] []
  | terms {s : List Char} {terms : List Term} : terms ≠ [] → Term.SpellsAll s terms → SpellsUnsigned s terms

/-- The terms of a text, with or without a plus sign. -/
inductive Spells : List Char → List Term → Prop
  | plain {s : List Char} {terms : List Term} : SpellsUnsigned s terms → Spells s terms
  | signed {s : List Char} {terms : List Term} : SpellsUnsigned s terms → Spells ('+' :: s) terms

end Duration

/-! ## Units -/

theorem TimeUnit.ofSymbol?_eq_some_iff {symbol : List Char} {unit : TimeUnit} :
    ofSymbol? symbol = some unit ↔ symbol ∈ unit.spellings := by
  constructor
  · intro h
    unfold ofSymbol? at h
    split at h <;> cases h <;> simp [spellings]
  · intro h
    cases unit <;> simp only [spellings, List.mem_cons, List.not_mem_nil, or_false] at h
    case microsecond => rcases h with rfl | rfl | rfl <;> rfl
    all_goals
      subst h
      rfl

theorem TimeUnit.nanos_pos (unit : TimeUnit) : 0 < unit.nanos := by cases unit <;> decide

namespace Term

theorem inUnit_eq_true_iff {c : Char} : inUnit c = true ↔ c.isDigit = false ∧ c ≠ '.' := by
  simp [inUnit]

theorem inUnit_of_mem_spellings {symbol : List Char} {unit : TimeUnit} (h : symbol ∈ unit.spellings) :
    ∀ c ∈ symbol, inUnit c = true := by
  cases unit <;> simp only [TimeUnit.spellings, List.mem_cons, List.not_mem_nil, or_false] at h
  case microsecond => rcases h with rfl | rfl | rfl <;> exact List.all_eq_true.1 rfl
  all_goals
    subst h
    exact List.all_eq_true.1 rfl

theorem ne_nil_of_mem_spellings {symbol : List Char} {unit : TimeUnit} (h : symbol ∈ unit.spellings) :
    symbol ≠ [] := by
  rintro rfl
  cases unit <;> simp [TimeUnit.spellings] at h

/-- What comes next, if anything, is no part of a unit. -/
def Ends (rest : List Char) : Prop := ∀ c, rest.head? = some c → inUnit c = false

end Term

/-! ## Splitting a text -/

namespace Term

theorem readFraction_eq_iff {s fraction rest : List Char} :
    readFraction s = (fraction, rest)
      ↔ (s = '.' :: (fraction ++ rest) ∧ (∀ c ∈ fraction, c.isDigit = true)
          ∧ ∀ c, rest.head? = some c → c.isDigit = false)
        ∨ (fraction = [] ∧ s = rest ∧ s.head? ≠ some '.') := by
  unfold readFraction
  split
  · simp [spanDigits_eq_iff]
  · rename_i hpoint
    have hhead : s.head? ≠ some '.' := by
      intro h
      obtain ⟨tail, rfl⟩ := List.head?_eq_some_iff.1 h
      exact hpoint tail rfl
    rw [Prod.mk.injEq]
    constructor
    · rintro ⟨rfl, rfl⟩
      exact .inr ⟨rfl, rfl, hhead⟩
    · rintro (⟨rfl, -⟩ | ⟨rfl, rfl, -⟩)
      · exact absurd rfl hhead
      · exact ⟨rfl, rfl⟩

/-- A term ends before the first character that can be in no unit. -/
theorem exists_spells_of_read? {s rest : List Char} {t : Term} (h : read? s = some (t, rest)) :
    ∃ text, s = text ++ rest ∧ Spells text t ∧ Ends rest := by
  obtain ⟨⟨whole, after⟩, hspan⟩ : ∃ split, spanDigits s = split := ⟨_, rfl⟩
  obtain ⟨⟨fraction, tail⟩, hpoint⟩ : ∃ split, readFraction after = split := ⟨_, rfl⟩
  simp only [read?, hspan, hpoint] at h
  split at h
  · cases h
  rename_i hdigits
  obtain ⟨unit, hunit, hread⟩ := Option.bind_eq_some_iff.1 h
  cases hread
  obtain ⟨rfl, hwhole, -⟩ := spanDigits_eq_iff.1 hspan
  obtain ⟨htail, -, hends⟩ := (span_eq_iff (p := inUnit) (s := tail)).1 ⟨rfl, rfl⟩
  have hsymbol := TimeUnit.ofSymbol?_eq_some_iff.1 hunit
  generalize tail.takeWhile inUnit = symbol at *
  generalize tail.dropWhile inUnit = rest at *
  subst htail
  rcases readFraction_eq_iff.1 hpoint with ⟨rfl, hfraction, -⟩ | ⟨rfl, rfl, -⟩
  · refine ⟨whole ++ '.' :: (fraction ++ symbol), by simp, .pointed ?_ hwhole hfraction hsymbol, hends⟩
    exact Decidable.not_and_iff_not_or_not.1 hdigits
  · refine ⟨whole ++ symbol, by simp, .plain ?_ hwhole hsymbol, hends⟩
    exact fun hnil => hdigits ⟨hnil, rfl⟩

theorem inUnit_head {symbol : List Char} {unit : TimeUnit} (h : symbol ∈ unit.spellings) (rest : List Char) :
    ∀ c, (symbol ++ rest).head? = some c → inUnit c = true := by
  intro c hc
  obtain ⟨first, more, rfl⟩ := List.exists_cons_of_ne_nil (ne_nil_of_mem_spellings h)
  cases hc
  exact inUnit_of_mem_spellings h c List.mem_cons_self

theorem read?_append_of_spells {text rest : List Char} {t : Term} (h : Spells text t) (hends : Ends rest) :
    read? (text ++ rest) = some (t, rest) := by
  cases h with
  | @plain digits symbol unit hne hdigits hsymbol =>
    have hhead := inUnit_head hsymbol rest
    have hspan : spanDigits (digits ++ (symbol ++ rest)) = (digits, symbol ++ rest) :=
      spanDigits_eq_iff.2 ⟨rfl, hdigits, fun c hc => (inUnit_eq_true_iff.1 (hhead c hc)).1⟩
    have hpoint : readFraction (symbol ++ rest) = ([], symbol ++ rest) :=
      readFraction_eq_iff.2 (.inr ⟨rfl, rfl, fun hc => (inUnit_eq_true_iff.1 (hhead '.' hc)).2 rfl⟩)
    obtain ⟨htake, hdrop⟩ := span_eq_iff.2 ⟨rfl, inUnit_of_mem_spellings hsymbol, hends⟩
    rw [List.append_assoc, read?, hspan]
    simp [hpoint, hne, htake, hdrop, TimeUnit.ofSymbol?_eq_some_iff.2 hsymbol]
  | @pointed whole fraction symbol unit hne hwhole hfraction hsymbol =>
    have hhead := inUnit_head hsymbol rest
    have hspan : spanDigits (whole ++ '.' :: (fraction ++ (symbol ++ rest)))
        = (whole, '.' :: (fraction ++ (symbol ++ rest))) :=
      spanDigits_eq_iff.2 ⟨rfl, hwhole, fun c hc => by cases hc; rfl⟩
    have hpoint : readFraction ('.' :: (fraction ++ (symbol ++ rest))) = (fraction, symbol ++ rest) :=
      readFraction_eq_iff.2 (.inl ⟨rfl, hfraction, fun c hc => (inUnit_eq_true_iff.1 (hhead c hc)).1⟩)
    obtain ⟨htake, hdrop⟩ := span_eq_iff.2 ⟨rfl, inUnit_of_mem_spellings hsymbol, hends⟩
    have hdigits : ¬ (whole = [] ∧ fraction = []) := Decidable.not_and_iff_not_or_not.2 hne
    rw [List.append_assoc, List.cons_append, List.append_assoc, read?, hspan]
    simp [hpoint, hdigits, htake, hdrop, TimeUnit.ofSymbol?_eq_some_iff.2 hsymbol]

/-! ## All terms -/

theorem sequence?_eq_some_nil {s : List Char} : sequence? s = some [] ↔ s = [] := by
  cases s with
  | nil => simp [sequence?]
  | cons c tail =>
    rw [sequence?]
    split <;> simp

theorem sequence?_eq_some_cons {s : List Char} {t : Term} {terms : List Term} :
    sequence? s = some (t :: terms) ↔ ∃ rest, read? s = some (t, rest) ∧ sequence? rest = some terms := by
  cases s with
  | nil => simp [sequence?, read?, spanDigits, readFraction]
  | cons c tail =>
    rw [sequence?]
    split
    · rename_i hnone
      simp [hnone]
    · rename_i first rest hfound
      simp only [hfound, Option.map_eq_some_iff, Option.some.injEq, Prod.mk.injEq, List.cons.injEq]
      constructor
      · rintro ⟨found, hrest, rfl, rfl⟩
        exact ⟨rest, ⟨rfl, rfl⟩, hrest⟩
      · rintro ⟨_, ⟨rfl, rfl⟩, hrest⟩
        exact ⟨terms, hrest, rfl, rfl⟩

theorem sequence?_of_ne_nil {s : List Char} (h : s ≠ []) :
    sequence? s = (read? s).bind fun found => (sequence? found.2).map (found.1 :: ·) := by
  obtain ⟨c, tail, rfl⟩ := List.exists_cons_of_ne_nil h
  rw [sequence?]
  split
  · rename_i hread
    simp only [hread, Option.bind_none]
  · rename_i hread
    simp only [hread, Option.bind_some]

theorem Spells.exists_head {text : List Char} {t : Term} (h : Spells text t) (rest : List Char) :
    ∃ c, (text ++ rest).head? = some c ∧ inUnit c = false := by
  cases h with
  | plain hne hdigits =>
    obtain ⟨c, digits, rfl⟩ := List.exists_cons_of_ne_nil hne
    exact ⟨c, rfl, by simp [inUnit, hdigits c List.mem_cons_self]⟩
  | @pointed whole _ _ _ _ hwhole =>
    cases whole with
    | nil => exact ⟨'.', rfl, rfl⟩
    | cons c digits => exact ⟨c, rfl, by simp [inUnit, hwhole c List.mem_cons_self]⟩

/-- The next term begins where no unit goes on. -/
theorem SpellsAll.ends {s : List Char} {terms : List Term} (h : SpellsAll s terms) : Ends s := by
  cases h with
  | nil => exact fun c hc => by cases hc
  | @cons _ rest _ _ hfirst _ =>
    obtain ⟨first, hhead, hfirst⟩ := hfirst.exists_head rest
    intro c hc
    rw [hhead] at hc
    cases hc
    exact hfirst

theorem sequence?_eq_some_iff {s : List Char} {terms : List Term} : sequence? s = some terms ↔ SpellsAll s terms := by
  constructor
  · intro h
    induction terms generalizing s with
    | nil =>
      rw [sequence?_eq_some_nil.1 h]
      exact .nil
    | cons t terms ih =>
      obtain ⟨rest, hread, hrest⟩ := sequence?_eq_some_cons.1 h
      obtain ⟨text, rfl, hspells, -⟩ := exists_spells_of_read? hread
      exact .cons hspells (ih hrest)
  · intro h
    induction h with
    | nil => exact sequence?_eq_some_nil.2 rfl
    | cons hspells hrest ih => exact sequence?_eq_some_cons.2 ⟨_, read?_append_of_spells hspells hrest.ends, ih⟩

/-! ## Checked sums -/

theorem sum_append (terms more : List Term) : sum (terms ++ more) = sum terms + sum more := by
  induction terms with
  | nil => exact (Nat.zero_add _).symm
  | cons t terms ih => rw [List.cons_append, sum, sum, ih, Nat.add_assoc]

theorem nanos_eq (t : Term) : t.nanos = digitsValue t.whole * t.unit.nanos + t.fractionNanos := by
  have htake : t.fraction.take (min 18 t.fraction.length) = t.fraction.take maxFractionDigits := by
    rw [List.take_eq_take_iff]
    simp [maxFractionDigits]
  simp only [nanos, fractionNanos, htake, List.length_take]
  rfl

theorem checked_eq_some_iff {n m : Nat} : checked n = some m ↔ n = m ∧ n < 2 ^ 128 := by
  unfold checked
  split <;> simp [*]

/-- No number on the way to a sum is larger than the sum. -/
theorem addTo?_eq (total : Nat) (t : Term) : addTo? total t = checked (t.nanos + total) := by
  have hwhole : digitsValue t.whole ≤ digitsValue t.whole * t.unit.nanos := Nat.le_mul_of_pos_right _ t.unit.nanos_pos
  ext n
  simp only [addTo?, nanos?, Option.bind_eq_bind, Option.bind_eq_some_iff, checked_eq_some_iff, nanos_eq]
  constructor
  · rintro ⟨_, ⟨_, ⟨rfl, -⟩, _, ⟨rfl, -⟩, rfl, -⟩, hsum⟩
    exact hsum
  · rintro ⟨rfl, hsum⟩
    exact ⟨_, ⟨_, ⟨rfl, by omega⟩, _, ⟨rfl, by omega⟩, rfl, by omega⟩, rfl, hsum⟩

theorem foldlM_addTo?_eq {terms : List Term} {total : Nat} (h : total < 2 ^ 128) :
    terms.foldlM addTo? total = checked (sum terms + total) := by
  induction terms generalizing total with
  | nil =>
    rw [List.foldlM_nil, sum, Nat.zero_add, checked, if_pos h]
    rfl
  | cons t terms ih =>
    rw [List.foldlM_cons, addTo?_eq, sum]
    by_cases hfits : t.nanos + total < 2 ^ 128
    · rw [checked, if_pos hfits]
      show terms.foldlM addTo? (t.nanos + total) = _
      rw [ih hfits]
      congr 1
      omega
    · rw [checked, if_neg hfits, checked, if_neg (by omega)]
      rfl

/-- The sum of the terms, if 128 bits hold it. -/
theorem total?_eq (terms : List Term) : total? terms = checked (sum terms) := by
  rw [total?, foldlM_addTo?_eq (by decide), Nat.add_zero]

end Term

/-! ## Reading a duration -/

namespace Duration

theorem unsigned_of_spellsUnsigned {s : List Char} {terms : List Term} (h : SpellsUnsigned s terms) : unsigned s = s := by
  have hhead : s.head? ≠ some '+' := by
    intro hplus
    cases h with
    | zero => cases hplus
    | terms _ hspells => exact absurd (hspells.ends '+' hplus) (by decide)
  unfold unsigned
  split
  · exact absurd rfl hhead
  · rfl

theorem spells_iff {s : List Char} {terms : List Term} : Spells s terms ↔ SpellsUnsigned (unsigned s) terms := by
  constructor
  · intro h
    cases h with
    | plain h => rwa [unsigned_of_spellsUnsigned h]
    | signed h => exact h
  · intro h
    unfold unsigned at h
    split at h
    · exact .signed h
    · exact .plain h

theorem spellsUnsigned_zero_iff {terms : List Term} : SpellsUnsigned ['0'] terms ↔ terms = [] := by
  constructor
  · intro h
    cases h with
    | zero => rfl
    | terms _ hspells =>
      cases terms with
      | nil => rfl
      | cons t rest =>
        -- The digit has no unit behind it.
        obtain ⟨after, hread, -⟩ := Term.sequence?_eq_some_cons.1 (Term.sequence?_eq_some_iff.2 hspells)
        cases hread
  · rintro rfl
    exact .zero

theorem spellsUnsigned_iff {s : List Char} {terms : List Term} (hzero : s ≠ ['0']) :
    SpellsUnsigned s terms ↔ s ≠ [] ∧ Term.sequence? s = some terms := by
  constructor
  · intro h
    cases h with
    | zero => exact absurd rfl hzero
    | terms hne hspells =>
      have hread := Term.sequence?_eq_some_iff.2 hspells
      refine ⟨?_, hread⟩
      rintro rfl
      rw [Term.sequence?_eq_some_nil.2 rfl] at hread
      exact hne (Option.some.inj hread).symm
  · rintro ⟨hne, hread⟩
    refine .terms ?_ (Term.sequence?_eq_some_iff.1 hread)
    rintro rfl
    exact hne (Term.sequence?_eq_some_nil.1 hread)

/-- There is one way only to split a text into terms. -/
theorem Spells.unique {s : List Char} {terms others : List Term} (h : Spells s terms) (hothers : Spells s others) :
    terms = others := by
  rw [spells_iff] at h hothers
  by_cases hzero : unsigned s = ['0']
  · rw [hzero, spellsUnsigned_zero_iff] at h hothers
    rw [h, hothers]
  · obtain ⟨-, hread⟩ := (spellsUnsigned_iff hzero).1 h
    obtain ⟨-, hreadOthers⟩ := (spellsUnsigned_iff hzero).1 hothers
    exact Option.some.inj (hread.symm.trans hreadOthers)

theorem ofNanos?_eq_some_iff {n : Nat} {d : Duration} : ofNanos? n = some d ↔ d.nanos = n := by
  unfold ofNanos?
  constructor
  · intro h
    split at h <;> cases h
    rfl
  · rintro rfl
    exact dif_pos d.nanos_lt

/-- A duration is read as the sum of its terms. -/
theorem ofChars?_eq_some_iff {s : List Char} {d : Duration} :
    ofChars? s = some d ↔ ∃ terms, Spells s terms ∧ d.nanos = Term.sum terms := by
  simp only [ofChars?, spells_iff]
  by_cases hzero : unsigned s = ['0']
  · simp only [hzero, if_true, spellsUnsigned_zero_iff, exists_eq_left]
    rw [← ofNanos?_eq_some_iff]
    rfl
  · simp only [hzero, if_false, spellsUnsigned_iff hzero]
    by_cases hnil : unsigned s = []
    · simp [hnil]
    · simp only [hnil, if_false, Option.bind_eq_bind, Option.bind_eq_some_iff, Term.total?_eq,
        Term.checked_eq_some_iff, ofNanos?_eq_some_iff]
      constructor
      · rintro ⟨terms, hread, total, ⟨rfl, -⟩, hd⟩
        exact ⟨terms, ⟨hnil, hread⟩, hd⟩
      · rintro ⟨terms, ⟨-, hread⟩, hd⟩
        -- Seconds of 64 bits are far below what 128 bits hold.
        have hfits : Term.sum terms < 2 ^ 128 := hd ▸ Nat.lt_trans d.nanos_lt (by decide)
        exact ⟨terms, hread, _, ⟨rfl, hfits⟩, hd⟩

theorem parse_eq_ok_iff {text : String} {d : Duration} : parse text = .ok d ↔ ofChars? text.toList = some d := by
  unfold parse
  split <;> simp [*]

theorem parse_eq_error_iff {text : String} {e : CodecError} :
    parse text = .error e ↔ e = .invalidDuration text ∧ ofChars? text.toList = none := by
  unfold parse
  split <;> simp [*, eq_comm]

/-- A text is read exactly if it spells terms whose sum in nanoseconds has seconds of at most 64 bits, and
it is read as that sum; the terms are determined by the text. Every other text is refused as it stands. -/
theorem parse_reads_the_grammar (text : String) :
    (∀ d, parse text = .ok d ↔ ∃ terms, Spells text.toList terms ∧ Term.sum terms < 2 ^ 64 * 10 ^ 9
      ∧ d.seconds = Term.sum terms / 10 ^ 9 ∧ d.subsecond = Term.sum terms % 10 ^ 9)
    ∧ ((∃ d, parse text = .ok d) ↔ ∃ terms, Spells text.toList terms ∧ Term.sum terms < 2 ^ 64 * 10 ^ 9)
    ∧ (∀ e, parse text = .error e
      ↔ e = .invalidDuration text ∧ ¬ ∃ terms, Spells text.toList terms ∧ Term.sum terms < 2 ^ 64 * 10 ^ 9)
    ∧ ∀ terms others, Spells text.toList terms → Spells text.toList others → terms = others := by
  have reads (d : Duration) : parse text = .ok d ↔ ∃ terms, Spells text.toList terms ∧ d.nanos = Term.sum terms :=
    parse_eq_ok_iff.trans ofChars?_eq_some_iff
  have accepts : (∃ d, parse text = .ok d)
      ↔ ∃ terms, Spells text.toList terms ∧ Term.sum terms < 2 ^ 64 * 10 ^ 9 := by
    simp only [reads]
    constructor
    · rintro ⟨d, terms, hspells, hd⟩
      exact ⟨terms, hspells, hd ▸ d.nanos_lt⟩
    · rintro ⟨terms, hspells, hlt⟩
      exact ⟨⟨Term.sum terms, hlt⟩, terms, hspells, rfl⟩
  refine ⟨fun d => ?_, accepts, fun e => ?_, fun terms others => Spells.unique⟩
  · rw [reads]
    refine exists_congr fun terms => and_congr_right fun _ => ?_
    have := d.nanos_lt
    unfold seconds subsecond
    omega
  · rw [parse_eq_error_iff, ← accepts]
    simp only [parse_eq_ok_iff, ← Option.isSome_iff_exists, Option.not_isSome_iff_eq_none]

/-- An hour and a half and a quarter of a microsecond behind a plus sign, and the least hours that are too many. -/
theorem hours_and_micros_are_summed :
    (∃ d, parse "+1.5h.25\u03bcs" = .ok d ∧ d.seconds = 5400 ∧ d.subsecond = 250)
    ∧ parse "5124095576030432h" = .error (.invalidDuration "5124095576030432h") := by
  constructor
  · obtain ⟨reads, accepts, -, unique⟩ := parse_reads_the_grammar "+1.5h.25\u03bcs"
    have hours : Term.Spells (['1'] ++ '.' :: (['5'] ++ ['h'])) ⟨['1'], ['5'], .hour⟩ :=
      .pointed (.inl (by decide)) (List.all_eq_true.1 rfl) (List.all_eq_true.1 rfl) (by decide)
    have micros : Term.Spells ([] ++ '.' :: (['2', '5'] ++ ['\u03bc', 's'])) ⟨[], ['2', '5'], .microsecond⟩ :=
      .pointed (.inr (by decide)) (List.all_eq_true.1 rfl) (List.all_eq_true.1 rfl) (by decide)
    have spells : Spells "+1.5h.25\u03bcs".toList [⟨['1'], ['5'], .hour⟩, ⟨[], ['2', '5'], .microsecond⟩] :=
      .signed (.terms (by simp) (.cons hours (.cons micros .nil)))
    obtain ⟨d, hd⟩ := accepts.2 ⟨_, spells, by decide⟩
    obtain ⟨terms, hterms, -, hseconds, hsubsecond⟩ := (reads d).1 hd
    obtain rfl := unique _ _ hterms spells
    exact ⟨d, hd, hseconds, hsubsecond⟩
  · obtain ⟨-, -, refuses, unique⟩ := parse_reads_the_grammar "5124095576030432h"
    have hours : Term.Spells ("5124095576030432".toList ++ ['h']) ⟨"5124095576030432".toList, [], .hour⟩ :=
      .plain (by decide) (List.all_eq_true.1 rfl) (by decide)
    have spells : Spells "5124095576030432h".toList [⟨"5124095576030432".toList, [], .hour⟩] :=
      .plain (.terms (by simp) (.cons hours .nil))
    refine (refuses _).2 ⟨rfl, ?_⟩
    rintro ⟨terms, hterms, hlt⟩
    obtain rfl := unique _ _ hterms spells
    exact absurd hlt (by decide)

end Duration

end JsonWire
