/-
  JsonWire.Presence — whether a member is there, null or a value.

  A nullable content keeps all three apart; an optional one is an `Option`, absent or a
  value. Both are written as a `Presence Json`: an absent one leaves no member, a null
  one leaves a null. Reading a nullable content takes null for itself, whatever the
  codec inside makes of null; an optional one leaves null to that codec.
-/

import JsonWire.Codec.Basic

namespace JsonWire

inductive Presence (α : Type) where
  | absent
  | null
  | present (value : α)
  deriving DecidableEq

namespace Presence

variable {α β : Type}

instance : Inhabited (Presence α) := ⟨.absent⟩

def isAbsent : Presence α → Bool
  | .absent => true
  | _ => false

def isNull : Presence α → Bool
  | .null => true
  | _ => false

def isPresent : Presence α → Bool
  | .present _ => true
  | _ => false

/-- Null counts as set, it says something. -/
def isSet (slot : Presence α) : Bool := !slot.isAbsent

def map (f : α → β) : Presence α → Presence β
  | .absent => .absent
  | .null => .null
  | .present value => .present (f value)

def toOption : Presence α → Option α
  | .present value => some value
  | _ => none

/-- What was said: null as nothing, and an error where nothing was said. -/
def value : Presence α → Except CodecError (Option α)
  | .absent => .error .unsetValue
  | .null => .ok none
  | .present value => .ok (some value)

/-- Runs a step on the value, if there is one. -/
def traverse (step : α → Traced β) : Presence α → Traced (Presence β)
  | .absent => pure .absent
  | .null => pure .null
  | .present value => do
    let done ← step value
    return .present done

/-- The member that a presence leaves in an object. -/
def member? : Presence Json → Option Json
  | .absent => none
  | .null => some .null
  | .present json => some json

instance [Alike α] : Alike (Presence α) where
  alike
    | .absent, .absent => true
    | .null, .null => true
    | .present a, .present b => alike a b
    | _, _ => false

end Presence

/-- What an explicit null means for an optional field. -/
inductive NullPolicy where
  | treatAsAbsent
  | reject
  deriving DecidableEq

namespace Codec

variable {α : Type} (codec : Codec α)

def encodeNullable (slot : Presence α) : Traced (Presence Json) := slot.traverse codec.encode

def decodeNullable (raw : Json) : Traced (Presence α) :=
  if raw.isNull then pure .null
  else do
    let value ← codec.decode raw
    return .present value

def encodeOptional : Option α → Traced (Presence Json)
  | none => pure .absent
  | some value => do
    let json ← codec.encode value
    return .present json

def decodeOptional (raw : Json) : Traced (Option α) := do
  let value ← codec.decode raw
  return some value

end Codec

end JsonWire
