/-
  JsonWire.Sample.WireType — a language of types.

  Scalars, the sample models, and boxes, lists and records of any of these. Each type
  has values, a default among them, a comparison and a codec (`WireType.schema`). A box
  is on the wire what it holds.
-/

import JsonWire.Sample.Bears
import JsonWire.Sample.Boxes
import JsonWire.Sample.Homes
import JsonWire.Sample.People

namespace JsonWire.Sample

/-- A type with all that the wire asks of it. -/
structure Schema where
  Carrier : Type
  [inhabited : Inhabited Carrier]
  [alike : Alike Carrier]
  codec : Codec Carrier

attribute [instance] Schema.inhabited Schema.alike

inductive Model where
  | pet
  | cat
  | dog
  | home
  | hasScalarNullable
  | smallBox
  | largeBox
  | storageBox
  | storage
  | meeting
  | polarBear
  | grizzlyBear
  | bear
  | chair
  | bench
  | seating
  | room
  | alloy
  | metal
  | compoundName
  | name
  | person
  | numberNoScalar
  | size
  | metalStringValues
  deriving DecidableEq

def Model.schema : Model → Schema
  | .pet => ⟨Pet, Pet.codec⟩
  | .cat => ⟨Cat, Cat.codec⟩
  | .dog => ⟨Dog, Dog.codec⟩
  | .home => ⟨Home, Home.codec⟩
  | .hasScalarNullable => ⟨HasScalarNullable, HasScalarNullable.codec⟩
  | .smallBox => ⟨SmallBox, SmallBox.codec⟩
  | .largeBox => ⟨LargeBox, LargeBox.codec⟩
  | .storageBox => ⟨StorageBox, StorageBox.codec⟩
  | .storage => ⟨Storage, Storage.codec⟩
  | .meeting => ⟨Meeting, Meeting.codec⟩
  | .polarBear => ⟨PolarBear, PolarBear.codec⟩
  | .grizzlyBear => ⟨GrizzlyBear, GrizzlyBear.codec⟩
  | .bear => ⟨Bear, Bear.codec⟩
  | .chair => ⟨Chair, Chair.codec⟩
  | .bench => ⟨Bench, Bench.codec⟩
  | .seating => ⟨Seating, Seating.codec⟩
  | .room => ⟨Room, Room.codec⟩
  | .alloy => ⟨Alloy, Alloy.codec⟩
  | .metal => ⟨Metal, Metal.codec⟩
  | .compoundName => ⟨CompoundName, CompoundName.codec⟩
  | .name => ⟨Name, Name.codec⟩
  | .person => ⟨Person, Person.codec⟩
  | .numberNoScalar => ⟨NumberNoScalar, NumberNoScalar.codec⟩
  | .size => ⟨Size, Size.codec⟩
  | .metalStringValues => ⟨MetalStringValues, MetalStringValues.codec⟩

inductive WireType where
  | any
  | string
  | bool
  | int (type : IntType)
  | float32
  | float64
  | duration
  | box (of : WireType)
  | list (of : WireType)
  | record (of : WireType)
  | model (model : Model)
  deriving DecidableEq

namespace WireType

def schema : WireType → Schema
  | .any => ⟨Json, .any⟩
  | .string => ⟨String, .string⟩
  | .bool => ⟨Bool, .bool⟩
  | .int t => ⟨IntOf t, .int t⟩
  | .float32 => ⟨Single, .float32⟩
  | .float64 => ⟨Double, .float64⟩
  | .duration => ⟨Duration, .duration⟩
  | .box t => t.schema
  | .list t => ⟨List t.schema.Carrier, .list t.schema.codec⟩
  | .record t => ⟨Record t.schema.Carrier, .record t.schema.codec⟩
  | .model m => m.schema

def Carrier (t : WireType) : Type := t.schema.Carrier

def codec (t : WireType) : Codec t.Carrier := t.schema.codec

instance (t : WireType) : Inhabited t.Carrier := t.schema.inhabited

instance (t : WireType) : Alike t.Carrier := t.schema.alike

end WireType

end JsonWire.Sample
