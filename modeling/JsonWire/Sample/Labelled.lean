/-
  JsonWire.Sample.Labelled — a union of values of any type, each under a label.

  A value carries its label and its type with it, and the label is its tag. The case of
  a label and a type holds the values that agree in both. `Labelled.members` lists the
  labels used here.
-/

import JsonWire.Sample.WireType

namespace JsonWire.Sample

structure Labelled where
  label : String
  type : WireType
  payload : type.Carrier

namespace Labelled

instance : Tagged Labelled := ⟨label⟩

/-- The payload of a value with this label and type. -/
def payload? (label : String) (type : WireType) (value : Labelled) : Option type.Carrier :=
  if same : value.type = type then
    if value.label = label then some (same ▸ value.payload) else none
  else none

def case (label : String) (type : WireType) : Case Labelled where
  Payload := type.Carrier
  codec := type.codec
  wrap := .mk label type
  unwrap := payload? label type

def members : List (String × WireType) := [
  ("int", .int .int64),
  ("byte", .int .uint8),
  ("float", .float64),
  ("single", .float32),
  ("text", .string),
  ("flag", .bool),
  ("any", .any),
  ("ints", .list (.int .int64)),
  ("table", .record (.int .int64)),
  ("dur", .duration),
  ("size", .model .size),
  ("pet", .model .pet),
  ("dog", .model .dog),
  ("chair", .model .chair),
  ("bench", .model .bench),
  ("polar", .model .polarBear),
  ("grizzly", .model .grizzlyBear),
  ("nullable", .model .hasScalarNullable),
  ("bear", .model .bear),
  ("metal", .model .metal),
  ("room", .model .room),
  ("bears", .list (.model .bear))]

def member? (label : String) : Option (Case Labelled) :=
  (members.lookup label).map (case label)

/-- The encoding of the payload alone. -/
def encodePayload (value : Labelled) : Traced Json := value.type.codec.encode value.payload

end Labelled

end JsonWire.Sample
