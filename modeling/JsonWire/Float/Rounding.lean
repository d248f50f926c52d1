/-
  JsonWire.Float.Rounding — the nearest number of a format, ties to even.

  `Format.nearest` rounds a quotient of natural numbers, counted in units, to the code
  of the nearest magnitude. The bit length of the whole part fixes the spacing of the
  format there; one exact division rounds to it. Adding the rounded significand to the
  shifted exponent field carries into the next binade by itself.

  Everything else is that function at a particular quotient: integers, decimals, and
  the conversions between formats (`widen` is exact, `narrow` may overflow to infinity).
-/

import JsonWire.Float.Binary

namespace JsonWire

/-- The whole number nearest to `num / den`, a half going to the even neighbour. -/
def roundHalfEven (num den : Nat) : Nat :=
  let whole := num / den
  let rest := num % den
  if 2 * rest < den then whole
  else if den < 2 * rest then whole + 1
  else whole + whole % 2

/-- The code of the magnitude nearest to `num / den` units, past the finite codes when
the quotient is too large. -/
def Format.nearest (f : Format) (num den : Nat) : Nat :=
  let shift := (num / den).log2 - f.fractionBits
  shift * 2 ^ f.fractionBits + roundHalfEven num (den * 2 ^ shift)

namespace Binary

/-- Rounds `num / den` units, with the given sign. -/
def round {f : Format} (negative : Bool) (num den : Nat) : Binary f :=
  ofCode negative (f.nearest num den)

def ofInt {f : Format} (n : Int) : Binary f :=
  round (n < 0) (n.natAbs * 2 ^ f.unitExponent) 1

end Binary

namespace Double

/-- The double nearest to `± digits * 10 ^ exponent`. The first three cases only spare
the arithmetic where the answer is plain: no digits, a number of `10 ^ 401` or more, a
number below `10 ^ -330`. -/
def ofDecimal (negative : Bool) (digits : Nat) (exponent : Int) : Double :=
  if digits = 0 then Binary.ofCode negative 0
  else if 400 < exponent then Binary.ofCode negative Format.double.infinityCode
  else if exponent + (digits.log2 + 1) < -330 then Binary.ofCode negative 0
  else
    let scaled := digits * 2 ^ Format.double.unitExponent
    if exponent < 0 then Binary.round negative scaled (10 ^ exponent.natAbs)
    else Binary.round negative (scaled * 10 ^ exponent.natAbs) 1

/-- Single-precision units per double-precision unit, as a power of two. -/
def unitGap : Nat := Format.double.unitExponent - Format.single.unitExponent

/-- The nearest single; a magnitude too large for the format becomes infinite. A
non-number stays one. -/
def narrow (x : Double) : Single :=
  if x.isFinite then Binary.round x.negative (Format.double.units x.code) (2 ^ unitGap)
  else if x.isNaN then
    ⟨x.negative, Format.single.codeBound - 1, Nat.sub_lt (Nat.two_pow_pos _) Nat.one_pos⟩
  else Binary.ofCode x.negative Format.single.infinityCode

end Double

namespace Single

/-- Every single is a double: finite magnitudes keep their value. -/
def widen (x : Single) : Double :=
  if x.isFinite then Binary.round x.negative (Format.single.units x.code * 2 ^ Double.unitGap) 1
  else if x.isNaN then
    ⟨x.negative, Format.double.codeBound - 1, Nat.sub_lt (Nat.two_pow_pos _) Nat.one_pos⟩
  else Binary.ofCode x.negative Format.double.infinityCode

end Single

end JsonWire
