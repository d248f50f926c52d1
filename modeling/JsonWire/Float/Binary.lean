/-
  JsonWire.Float.Binary — floating-point numbers as bit patterns.

  A number of a `Format` is a sign and a `code`: the exponent field and the fraction
  field read as one natural number. Codes are ordered as the magnitudes they stand
  for, so the successor of a code is the next magnitude, `infinityCode` is infinity and
  whatever lies past it is no number.

  Every finite magnitude is a whole number of units, the unit being the least positive
  number of the format, `2 ^ -unitExponent`. Rounding and printing are therefore
  arithmetic on natural numbers (`Format.units`).
-/

import JsonWire.Alike

namespace JsonWire

-- Powers are computed by core, also where a library brings a power of its own.
attribute [instance(2000), default_instance(20000)] instPowNat

/-- Widths, in bits, of the two fields of a floating-point format. -/
structure Format where
  fractionBits : Nat
  exponentBits : Nat
  deriving DecidableEq

namespace Format

def double : Format := ⟨52, 11⟩
def single : Format := ⟨23, 8⟩

/-- One more than the largest code. -/
def codeBound (f : Format) : Nat := 2 ^ (f.fractionBits + f.exponentBits)

/-- All ones in the exponent field, zeros in the fraction field. -/
def infinityCode (f : Format) : Nat := (2 ^ f.exponentBits - 1) * 2 ^ f.fractionBits

/-- The unit is two to minus this power. -/
def unitExponent (f : Format) : Nat := 2 ^ (f.exponentBits - 1) - 2 + f.fractionBits

/-- The magnitude of a code in units: below the first binade the fraction itself, above
it the fraction with its leading one, shifted by the exponent field less one. -/
def units (f : Format) (code : Nat) : Nat :=
  let exponent := code / 2 ^ f.fractionBits
  let fraction := code % 2 ^ f.fractionBits
  if exponent = 0 then fraction else (2 ^ f.fractionBits + fraction) * 2 ^ (exponent - 1)

theorem infinityCode_lt (f : Format) : f.infinityCode < f.codeBound := by
  have hf := Nat.two_pow_pos f.fractionBits
  have he := Nat.two_pow_pos f.exponentBits
  rw [infinityCode, codeBound, Nat.pow_add, Nat.mul_comm (2 ^ f.fractionBits)]
  exact Nat.mul_lt_mul_of_pos_right (by omega) hf

end Format

/-- A number of the format, infinities and non-numbers included. -/
structure Binary (f : Format) where
  negative : Bool
  code : Nat
  code_lt : code < f.codeBound
  deriving DecidableEq

abbrev Double := Binary .double
abbrev Single := Binary .single

namespace Binary

variable {f : Format}

def zero : Binary f := ⟨false, 0, Nat.two_pow_pos _⟩

instance : Inhabited (Binary f) := ⟨zero⟩

/-- A finite number of the given magnitude, or infinity for a code past the finite ones. -/
def ofCode (negative : Bool) (code : Nat) : Binary f :=
  if h : code < f.infinityCode then ⟨negative, code, Nat.lt_trans h f.infinityCode_lt⟩
  else ⟨negative, f.infinityCode, f.infinityCode_lt⟩

/-- The bit pattern, sign bit first. -/
def toBits (x : Binary f) : Nat := (if x.negative then f.codeBound else 0) + x.code

/-- The number of a bit pattern; bits above the sign are dropped. -/
def ofBits (bits : Nat) : Binary f :=
  ⟨bits / f.codeBound % 2 = 1, bits % f.codeBound, Nat.mod_lt _ (Nat.two_pow_pos _)⟩

@[simp] theorem ofBits_toBits (x : Binary f) : ofBits x.toBits = x := by
  obtain ⟨negative, code, hcode⟩ := x
  have hpos : 0 < f.codeBound := Nat.two_pow_pos _
  cases negative <;>
    simp [ofBits, toBits, Nat.div_eq_of_lt hcode, Nat.mod_eq_of_lt hcode,
      Nat.add_div_left _ hpos]

def isFinite (x : Binary f) : Bool := x.code < f.infinityCode

def isNaN (x : Binary f) : Bool := f.infinityCode < x.code

/-- Comparison of numbers: no non-number is like anything, the two zeros are alike. -/
instance : Alike (Binary f) where
  alike x y := !x.isNaN && !y.isNaN && x.code == y.code && (x.negative == y.negative || x.code == 0)

end Binary

end JsonWire
