/-
  JsonWire.Sample.Scalars — three scalar domains.

  A strict one of two sizes, a lenient one of two metals, and a lenient one of numbers.
  Their values carry any scalar, members or not.
-/

import JsonWire.Domain

namespace JsonWire.Sample

/-- The key of a tag is no empty text. -/
theorem type_ne_empty : "type" ≠ "" := by decide

structure Size where
  text : String
  deriving DecidableEq, Inhabited

namespace Size

def domain : Domain String := ⟨"Size", ["small", "large"], .strict⟩

def codec : Codec Size := domain.codec.imap .mk text

def isKnown (size : Size) : Bool := domain.contains size.text

instance : Alike Size := Alike.ofDecidableEq

end Size

structure MetalStringValues where
  text : String
  deriving DecidableEq, Inhabited

namespace MetalStringValues

def domain : Domain String := ⟨"MetalStringValues", ["iron", "silver"], .lenient⟩

def codec : Codec MetalStringValues := domain.codec.imap .mk text

def isKnown (metal : MetalStringValues) : Bool := domain.contains metal.text

instance : Alike MetalStringValues := Alike.ofDecidableEq

end MetalStringValues

structure NumberNoScalar where
  number : IntOf .int64
  deriving DecidableEq, Inhabited

namespace NumberNoScalar

def domain : Domain (IntOf .int64) :=
  ⟨"NumberNoScalar", [⟨4, by decide⟩, ⟨2, by decide⟩], .lenient⟩

def codec : Codec NumberNoScalar := domain.codec.imap .mk number

def isKnown (n : NumberNoScalar) : Bool := domain.contains n.number

instance : Alike NumberNoScalar := Alike.ofDecidableEq

end NumberNoScalar

end JsonWire.Sample
