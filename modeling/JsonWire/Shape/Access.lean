/-
  JsonWire.Shape.Access — how a shape reaches the content of a field.

  A field is required, optional or nullable content at a place of the value, or a
  constant that is at no place: a constant is written always and whatever stands for it
  is accepted. Reading writes the content into a target. An optional field takes null
  for absent.
-/

import JsonWire.Lens
import JsonWire.Presence

namespace JsonWire

inductive Access (T : Type) : Type 1 where
  | required {F : Type} (lens : Lens T F) (codec : Codec F)
  | optional {F : Type} (lens : Lens T (Option F)) (codec : Codec F)
  | nullable {F : Type} (lens : Lens T (Presence F)) (codec : Codec F)
  | constant (literal : Json)

namespace Access

variable {T C : Type}

inductive Kind where
  | required
  | optional
  | nullable
  | constant
  deriving DecidableEq

def kind : Access T → Kind
  | .required .. => .required
  | .optional .. => .optional
  | .nullable .. => .nullable
  | .constant _ => .constant

def encode : Access T → T → Traced (Presence Json)
  | .required lens codec, x => do
    let json ← codec.encode (lens.get x)
    return .present json
  | .optional lens codec, x => codec.encodeOptional (lens.get x)
  | .nullable lens codec, x => codec.encodeNullable (lens.get x)
  | .constant literal, _ => pure (.present literal)

/-- Reads a member into the target. -/
def decode : Access T → Json → T → Traced T
  | .required lens codec, raw, target => do
    let content ← codec.decode raw
    return lens.set content target
  | .optional lens codec, raw, target => do
    let content ← if raw.isNull then pure none else codec.decodeOptional raw
    return lens.set content target
  | .nullable lens codec, raw, target => do
    let content ← codec.decodeNullable raw
    return lens.set content target
  | .constant _, _, target => pure target

/-- The access to a value that lies inside another. -/
def through (outer : Lens C T) : Access T → Access C
  | .required lens codec => .required (outer.comp lens) codec
  | .optional lens codec => .optional (outer.comp lens) codec
  | .nullable lens codec => .nullable (outer.comp lens) codec
  | .constant literal => .constant literal

end Access

end JsonWire
