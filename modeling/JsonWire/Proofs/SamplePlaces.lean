/-
  JsonWire.Proofs.SamplePlaces — the fields of the sample models lie at independent places.

  A model is the row of its parts, those that it inherits included, and each of its
  fields is one of them.
-/

import JsonWire.Proofs.Places
import JsonWire.Sample.WireType

namespace JsonWire.Sample

open Shape (disjoint_of_row)

def Pet.row : Pet ≃ String × IntOf .int64 × Option String × Presence String × List String where
  toFun x := (x.name, x.age, x.nickname, x.owner, x.tags)
  invFun | (name, age, nickname, owner, tags) => ⟨name, age, nickname, owner, tags⟩

theorem Pet.disjoint_shape : Pet.shape.Disjoint :=
  disjoint_of_row Pet.row (.cons rfl (.cons rfl (.cons rfl (.cons rfl (.last rfl)))))

def Cat.row : Cat ≃ String × IntOf .uint8 where
  toFun x := (x.name, x.lives)
  invFun | (name, lives) => ⟨name, lives⟩

theorem Cat.disjoint_shape : Cat.shape.Disjoint :=
  disjoint_of_row Cat.row (.cons rfl (.last rfl))

/-- The age of the pet comes last: it is no field's. -/
def Dog.row :
    Dog ≃ String × IntOf .uint8 × Option String × Presence String × List String × Option String × IntOf .int64 where
  toFun x := (x.pet.name, x.age, x.pet.nickname, x.pet.owner, x.pet.tags, x.breed, x.pet.age)
  invFun | (name, age, nickname, owner, tags, breed, petAge) => ⟨⟨name, petAge, nickname, owner, tags⟩, age, breed⟩

theorem Dog.disjoint_shape : Dog.shape.Disjoint :=
  disjoint_of_row Dog.row (.cons rfl (.cons rfl (.cons rfl (.cons rfl (.cons rfl (.constant (.cons rfl (.nil _))))))))

def SmallBox.row : SmallBox ≃ Option String where
  toFun x := x.base.label
  invFun | label => ⟨⟨label⟩⟩

theorem SmallBox.disjoint_shape : SmallBox.shape.Disjoint :=
  disjoint_of_row SmallBox.row (.last rfl)

def LargeBox.row : LargeBox ≃ Option String × Size where
  toFun x := (x.base.label, x.size)
  invFun | (label, size) => ⟨⟨label⟩, size⟩

theorem LargeBox.disjoint_shape : LargeBox.shape.Disjoint :=
  disjoint_of_row LargeBox.row (.cons rfl (.last rfl))

def Storage.row : Storage ≃ StorageBox where
  toFun x := x.box
  invFun | box => ⟨box⟩

theorem Storage.disjoint_shape : Storage.shape.Disjoint :=
  disjoint_of_row Storage.row (.last rfl)

def PolarBear.row : PolarBear ≃ Size where
  toFun x := x.size
  invFun | size => ⟨size⟩

theorem PolarBear.disjoint_shape : PolarBear.shape.Disjoint :=
  disjoint_of_row PolarBear.row (.last rfl)

def GrizzlyBear.row : GrizzlyBear ≃ String × Presence String where
  toFun x := (x.size, x.region)
  invFun | (size, region) => ⟨size, region⟩

theorem GrizzlyBear.disjoint_shape : GrizzlyBear.shape.Disjoint :=
  disjoint_of_row GrizzlyBear.row (.cons rfl (.last rfl))

def Chair.row : Chair ≃ IntOf .int64 where
  toFun x := x.legs
  invFun | legs => ⟨legs⟩

theorem Chair.disjoint_shape : Chair.shape.Disjoint :=
  disjoint_of_row Chair.row (.last rfl)

def Bench.row : Bench ≃ Double × IntOf .int64 where
  toFun x := (x.length, x.seats)
  invFun | (length, seats) => ⟨length, seats⟩

theorem Bench.disjoint_shape : Bench.shape.Disjoint :=
  disjoint_of_row Bench.row (.cons rfl (.last rfl))

def Room.row : Room ≃ String × List Seating where
  toFun x := (x.name, x.seating)
  invFun | (name, seating) => ⟨name, seating⟩

theorem Room.disjoint_shape : Room.shape.Disjoint :=
  disjoint_of_row Room.row (.cons rfl (.last rfl))

def Alloy.row : Alloy ≃ String × Double where
  toFun x := (x.name, x.percentage)
  invFun | (name, percentage) => ⟨name, percentage⟩

theorem Alloy.disjoint_shape : Alloy.shape.Disjoint :=
  disjoint_of_row Alloy.row (.cons rfl (.last rfl))

def CompoundName.row : CompoundName ≃ String × Option String where
  toFun x := (x.name, x.secondName)
  invFun | (name, secondName) => ⟨name, secondName⟩

theorem CompoundName.disjoint_shape : CompoundName.shape.Disjoint :=
  disjoint_of_row CompoundName.row (.cons rfl (.last rfl))

def Person.row : Person ≃ Presence Name × List Metal where
  toFun x := (x.name, x.metals)
  invFun | (name, metals) => ⟨name, metals⟩

theorem Person.disjoint_shape : Person.shape.Disjoint :=
  disjoint_of_row Person.row (.cons rfl (.last rfl))

def Home.row : Home ≃ String × Option Dog × Record Room where
  toFun x := (x.address, x.dog, x.rooms)
  invFun | (address, dog, rooms) => ⟨address, dog, rooms⟩

theorem Home.disjoint_shape : Home.shape.Disjoint :=
  disjoint_of_row Home.row (.cons rfl (.cons rfl (.last rfl)))

def HasScalarNullable.row : HasScalarNullable ≃ Presence String where
  toFun x := x.scalarNullableField
  invFun | field => ⟨field⟩

theorem HasScalarNullable.disjoint_shape : HasScalarNullable.shape.Disjoint :=
  disjoint_of_row HasScalarNullable.row (.last rfl)

def Meeting.row : Meeting ≃ String × Duration × Option Duration where
  toFun x := (x.title, x.duration, x.reminder)
  invFun | (title, duration, reminder) => ⟨title, duration, reminder⟩

theorem Meeting.disjoint_shape : Meeting.shape.Disjoint :=
  disjoint_of_row Meeting.row (.cons rfl (.cons rfl (.last rfl)))

end JsonWire.Sample
