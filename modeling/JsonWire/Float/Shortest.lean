/-
  JsonWire.Float.Shortest — the fewest decimal digits that read back as a number.

  A magnitude of `u` units is `u * 5 ^ K / 10 ^ K`, `K` being the unit exponent: a whole
  number `u * 5 ^ K` with the decimal point moved. The decimals that round to it lie
  between the midpoints to its two neighbours, ends included when its code is even.
  Keeping `n` leading digits puts a grid on the line; if any point of the grid lies in
  that interval, so does one of the two around the number. `shortest` takes the first
  `n` for which one does, and the nearer of the two where both do.
-/

import JsonWire.Float.Binary

namespace JsonWire

/-- A positive decimal in scientific form, `d.ddd * 10 ^ exponent`. -/
structure Scientific where
  digits : List Char
  exponent : Int
  deriving DecidableEq

/-- Which of two equally near decimals is taken. -/
inductive TieRule where
  | even
  | up
  deriving DecidableEq

namespace Format

/-- Does `n / 10 ^ unitExponent` round to the magnitude with this code? Both midpoints
are taken twice over, so that they are whole. -/
def roundsTo (f : Format) (code n : Nat) : Bool :=
  let scale := 5 ^ f.unitExponent
  let low := (f.units (code - 1) + f.units code) * scale
  let high := (f.units code + f.units (code + 1)) * scale
  if code % 2 = 0 then low ≤ 2 * n && 2 * n ≤ high else low < 2 * n && 2 * n < high

/-- The multiple of `grid` that stands for `exact`, if one of the two around it rounds to
the same magnitude. -/
def gridPoint? (f : Format) (tie : TieRule) (code exact grid : Nat) : Option Nat :=
  let below := exact / grid * grid
  let above := below + grid
  let lower := f.roundsTo code below
  let upper := f.roundsTo code above
  if lower && upper then
    if exact - below < above - exact then some below
    else if above - exact < exact - below then some above
    else if tie = .even && exact / grid % 2 = 0 then some below
    else some above
  else if lower then some below
  else if upper then some above
  else none

/-- The shortest decimal of a positive magnitude, as a whole number of
`10 ^ -unitExponent`. -/
def shortestScaled (f : Format) (tie : TieRule) (code : Nat) : Nat :=
  let exact := f.units code * 5 ^ f.unitExponent
  let length := (Nat.toDigits 10 exact).length
  let grids := (List.range length).map fun kept => 10 ^ (length - 1 - kept)
  (grids.findSome? (f.gridPoint? tie code exact)).getD exact

end Format

/-- The decimal `n / 10 ^ places` in scientific form, without zeros at the end. -/
def Scientific.ofScaled (n places : Nat) : Scientific :=
  let digits := Nat.toDigits 10 n
  { digits := (digits.reverse.dropWhile (· = '0')).reverse
    exponent := (digits.length : Int) - 1 - places }

/-- The shortest decimal that reads back as the magnitude of `x`. -/
def Binary.shortest {f : Format} (tie : TieRule) (x : Binary f) : Scientific :=
  .ofScaled (f.shortestScaled tie x.code) f.unitExponent

end JsonWire
