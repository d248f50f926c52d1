/-
  JsonWire.Float.Text — how a number is written.

  Two texts use the shortest digits of a number. The text in a document
  (`documentNumber`) always shows a fraction or an exponent, so that it reads back as a
  floating-point number, and turns to an exponent outside `10 ^ -5` to `10 ^ 15`. The
  text in a message (`messageNumber`) is positional at every size, shows a fraction only
  where there is one, and has names for what is not finite.
-/

import JsonWire.Float.Shortest

namespace JsonWire

/-- The decisions that a written number leaves open. -/
structure NumberLayout where
  tie : TieRule
  /-- Exponents written positionally. -/
  positional : Int → Bool
  /-- Whether a whole number is written with `.0`. -/
  keepsFraction : Bool

namespace NumberLayout

/-- An exponent is written from below `10 ^ -5` and from `10 ^ 16` on. -/
def documentNumber : NumberLayout := ⟨.even, fun e => -5 ≤ e && e ≤ 15, true⟩

def messageNumber : NumberLayout := ⟨.up, fun _ => true, false⟩

def zeros (n : Nat) : List Char := List.replicate n '0'

/-- Digits with the point in its place, filled up with zeros on either side. -/
def positionalText (layout : NumberLayout) (s : Scientific) : List Char :=
  if s.exponent < 0 then '0' :: '.' :: zeros (s.exponent.natAbs - 1) ++ s.digits
  else
    let wholeLength := s.exponent.natAbs + 1
    let whole := s.digits.take wholeLength ++ zeros (wholeLength - s.digits.length)
    match s.digits.drop wholeLength with
    | [] => if layout.keepsFraction then whole ++ ['.', '0'] else whole
    | fraction => whole ++ '.' :: fraction

/-- One digit, the fraction if there is one, and the exponent with its sign. -/
def exponentText (s : Scientific) : List Char :=
  let mantissa := match s.digits with
    | first :: second :: more => first :: '.' :: second :: more
    | digits => digits
  mantissa ++ 'e' :: (if s.exponent < 0 then '-' else '+') :: Nat.toDigits 10 s.exponent.natAbs

/-- The magnitude of a finite number. -/
def magnitude {f : Format} (layout : NumberLayout) (x : Binary f) : List Char :=
  if x.code = 0 then layout.positionalText ⟨['0'], 0⟩
  else
    let s := x.shortest layout.tie
    if layout.positional s.exponent then layout.positionalText s else exponentText s

/-- A non-number is written without a sign. -/
def text {f : Format} (layout : NumberLayout) (x : Binary f) : String :=
  if x.isNaN then "NaN"
  else
    let body := if x.isFinite then layout.magnitude x else "inf".toList
    String.ofList (if x.negative then '-' :: body else body)

end NumberLayout

end JsonWire
