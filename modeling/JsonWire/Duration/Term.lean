/-
  JsonWire.Duration.Term — reading a duration.

  A duration is `0` or a run of terms, each a decimal and a unit, after one optional
  plus sign. Reading first splits the text into terms (`Term.sequence?`) and then adds
  them up (`Term.total?`). The sum is taken in 128 bits: a number beyond them is no
  duration, and neither is a total whose seconds do not fit 64 bits. Of a fraction the
  first eighteen digits count, and what they leave below a nanosecond is dropped.
-/

import JsonWire.Duration.Basic
import JsonWire.Error
import JsonWire.Text.Digits

namespace JsonWire

open Text

/-- A decimal, as the digits before and after its point, and its unit. -/
structure Term where
  whole : List Char
  fraction : List Char
  unit : TimeUnit

namespace Term

/-! ## From text -/

/-- The digits after a point, if a point comes next. -/
def readFraction (s : List Char) : List Char × List Char :=
  match s with
  | '.' :: rest => spanDigits rest
  | _ => ([], s)

/-- A unit ends where the next term begins. -/
def inUnit (c : Char) : Bool := !(c.isDigit || c = '.')

/-- The first term of a text and what follows it. -/
def read? (s : List Char) : Option (Term × List Char) := do
  let (whole, s) := spanDigits s
  let (fraction, s) := readFraction s
  if whole = [] ∧ fraction = [] then none
  else
    let unit ← TimeUnit.ofSymbol? (s.takeWhile inUnit)
    return (⟨whole, fraction, unit⟩, s.dropWhile inUnit)

theorem length_readFraction_le (s : List Char) : (readFraction s).2.length ≤ s.length := by
  unfold readFraction
  split
  · rename_i rest
    have := length_spanDigits rest
    simp only [List.length_cons]
    omega
  · exact Nat.le_refl _

theorem length_read?_lt {s rest : List Char} {term : Term} (h : read? s = some (term, rest)) :
    rest.length < s.length := by
  have hspan := length_spanDigits s
  have hfraction := length_readFraction_le (spanDigits s).2
  simp only [read?] at h
  split at h
  · cases h
  · obtain ⟨unit, hunit, e⟩ := Option.bind_eq_some_iff.1 h
    cases e
    generalize (readFraction (spanDigits s).2).2 = after at *
    have hsplit := congrArg List.length (List.takeWhile_append_dropWhile (p := inUnit) (l := after))
    rw [List.length_append] at hsplit
    have : after.takeWhile inUnit ≠ [] := fun e => by rw [e] at hunit; cases hunit
    have := List.length_pos_iff.2 this
    omega

/-- The terms of a text. -/
def sequence? (s : List Char) : Option (List Term) :=
  match s with
  | [] => some []
  | c :: tail =>
    match found : read? (c :: tail) with
    | none => none
    | some (term, rest) =>
      have := length_read?_lt found
      (sequence? rest).map (term :: ·)
termination_by s.length
decreasing_by exact this

/-! ## To nanoseconds -/

/-- A number that 128 bits hold. -/
def checked (n : Nat) : Option Nat := if n < 2 ^ 128 then some n else none

/-- Digits of a fraction that count. -/
def maxFractionDigits : Nat := 18

/-- The whole nanoseconds of the fraction. -/
def fractionNanos (t : Term) : Nat :=
  let counted := t.fraction.take maxFractionDigits
  digitsValue counted * t.unit.nanos / 10 ^ counted.length

def nanos? (t : Term) : Option Nat := do
  let whole ← checked (digitsValue t.whole)
  let scaled ← checked (whole * t.unit.nanos)
  checked (scaled + t.fractionNanos)

def addTo? (total : Nat) (t : Term) : Option Nat := do
  let nanos ← t.nanos?
  checked (nanos + total)

def total? (terms : List Term) : Option Nat := terms.foldlM addTo? 0

end Term

namespace Duration

/-- A plus sign at the head counts for nothing. -/
def unsigned : List Char → List Char
  | '+' :: rest => rest
  | s => s

def ofChars? (s : List Char) : Option Duration :=
  if unsigned s = ['0'] then some zero
  else if unsigned s = [] then none
  else do
    let terms ← Term.sequence? (unsigned s)
    let total ← Term.total? terms
    ofNanos? total

def parse (text : String) : Except CodecError Duration :=
  match ofChars? text.toList with
  | some d => .ok d
  | none => .error (.invalidDuration text)

end Duration

end JsonWire
