/-
  JsonWire.Union.Case — the cases of a union.

  A union is a type whose values know their own tag. A case is one payload of it: how
  the payload travels, how it becomes a value of the union, and which values hold it.
  Decoding gives the value together with the tag it was found under (`UnionValue`).
-/

import JsonWire.Codec.Basic

namespace JsonWire

class Tagged (U : Type) where
  tag : U → String

export Tagged (tag)

structure Case (U : Type) where
  Payload : Type
  codec : Codec Payload
  wrap : Payload → U
  unwrap : U → Option Payload

namespace Case

variable {U : Type}

def decode (case : Case U) (raw : Json) : Traced U := do
  let payload ← case.codec.decode raw
  return case.wrap payload

/-- Nothing for a value that holds another case. -/
def encode? (case : Case U) (value : U) : Option (Traced Json) :=
  (case.unwrap value).map case.codec.encode

end Case

theorem Case.nodup_of_unrepeated {U : Type} {cases : List (String × Case U)}
    (h : Entries.firstRepeated? (Entries.keys cases) = none) : (Entries.keys cases).Nodup :=
  Entries.firstRepeated?_eq_none_iff.1 h

structure UnionValue (U : Type) where
  tag : String
  value : U

/-- A value under its own tag. -/
def UnionValue.of {U : Type} [Tagged U] (value : U) : UnionValue U := ⟨Tagged.tag value, value⟩

end JsonWire
