/-
  JsonWire.Codec.Numbers — whole numbers of eight widths and floats of two.

  A whole number is read from a whole number only, never from a double. It must first
  fit the 64 bits of its signedness: what does not is a number of the wrong kind, what
  does but lies outside the type is out of range. A float is read from any number;
  a single that would become infinite is out of range. An infinite float or a
  non-number has no encoding.
-/

import JsonWire.Codec.Basic
import JsonWire.Float.Rounding

namespace JsonWire

inductive IntType where
  | int8
  | int16
  | int32
  | int64
  | uint8
  | uint16
  | uint32
  | uint64
  deriving DecidableEq

namespace IntType

def name : IntType → String
  | .int8 => "int8"
  | .int16 => "int16"
  | .int32 => "int32"
  | .int64 => "int64"
  | .uint8 => "uint8"
  | .uint16 => "uint16"
  | .uint32 => "uint32"
  | .uint64 => "uint64"

def lowest : IntType → Int
  | .int8 => -2 ^ 7
  | .int16 => -2 ^ 15
  | .int32 => -2 ^ 31
  | .int64 => -2 ^ 63
  | _ => 0

def highest : IntType → Int
  | .int8 => 2 ^ 7 - 1
  | .int16 => 2 ^ 15 - 1
  | .int32 => 2 ^ 31 - 1
  | .int64 => 2 ^ 63 - 1
  | .uint8 => 2 ^ 8 - 1
  | .uint16 => 2 ^ 16 - 1
  | .uint32 => 2 ^ 32 - 1
  | .uint64 => 2 ^ 64 - 1

/-- The 64-bit type of the same signedness. -/
def carrier : IntType → IntType
  | .int8 | .int16 | .int32 | .int64 => .int64
  | .uint8 | .uint16 | .uint32 | .uint64 => .uint64

def Holds (t : IntType) (n : Int) : Prop := t.lowest ≤ n ∧ n ≤ t.highest

instance (t : IntType) (n : Int) : Decidable (t.Holds n) := inferInstanceAs (Decidable (_ ∧ _))

theorem holds_zero (t : IntType) : t.Holds 0 := by cases t <;> decide

theorem Holds.fits {t : IntType} {n : Int} (h : t.Holds n) : -2 ^ 63 ≤ n ∧ n < 2 ^ 64 := by
  obtain ⟨hl, hh⟩ := h
  cases t <;> simp only [lowest, highest] at hl hh <;> omega

end IntType

/-- A whole number of the type's range. -/
structure IntOf (t : IntType) where
  val : Int
  holds : t.Holds val
  deriving DecidableEq

namespace IntOf

variable {t : IntType}

instance : Inhabited (IntOf t) := ⟨⟨0, t.holds_zero⟩⟩

instance : Alike (IntOf t) := Alike.ofDecidableEq

def ofInt? (n : Int) : Option (IntOf t) := if h : t.Holds n then some ⟨n, h⟩ else none

end IntOf

/-- The nearest double. -/
def Number.toDouble : Number → Double
  | .int n _ => Binary.ofInt n
  | .float x _ => x

namespace Codec

/-- What a number that does not fit is found to be. -/
def outOfRange : String := "out-of-range number"

/-- The whole number that a value is, if the 64-bit type holds it. -/
def wholeNumber? (carrier : IntType) : Json → Option Int
  | .num (.int n _) => if carrier.Holds n then some n else none
  | _ => none

def int (t : IntType) : Codec (IntOf t) where
  encode n := pure (.num (.int n.val n.holds.fits))
  decode raw := do
    let n ← expecting t.name (wholeNumber? t.carrier) raw
    match IntOf.ofInt? n with
    | some n => pure n
    | none => .fail (.unexpectedType t.name outOfRange)

def number? : Json → Option Double
  | .num n => some n.toDouble
  | _ => none

def encodeFloat (x : Double) : Traced Json :=
  match Json.ofDouble? x with
  | some json => pure json
  | none => .fail (.nonFinite x)

def float64 : Codec Double where
  encode := encodeFloat
  decode := expecting "float64" number?

def float32 : Codec Single where
  encode x := encodeFloat x.widen
  decode raw := do
    let x ← expecting "float32" number? raw
    if x.narrow.isFinite then pure x.narrow
    else .fail (.unexpectedType "float32" outOfRange)

end Codec

end JsonWire
