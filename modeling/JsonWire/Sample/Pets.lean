/-
  JsonWire.Sample.Pets — shapes with every kind of field.

  A dog inherits all of a pet, gives `age` a narrower type of its own, and adds a
  constant. The age inside the pet then lies at no field and stays as it is.
-/

import JsonWire.Codec.Collections
import JsonWire.Codec.Numbers
import JsonWire.Shape.Declaration

namespace JsonWire.Sample

structure Pet where
  name : String
  age : IntOf .int64
  nickname : Option String
  owner : Presence String
  tags : List String
  deriving Inhabited

namespace Pet

def shape : Shape Pet := .build "Pet" [
  .required "name" .string ⟨name, fun v p => { p with name := v }⟩,
  .required "age" (.int .int64) ⟨age, fun v p => { p with age := v }⟩,
  .optional "nickname" .string ⟨nickname, fun v p => { p with nickname := v }⟩,
  .nullable "owner" .string ⟨owner, fun v p => { p with owner := v }⟩,
  .required "tags" (.list .string) ⟨tags, fun v p => { p with tags := v }⟩]

def codec : Codec Pet := shape.codec

instance : Alike Pet where
  alike a b := alike a.name b.name && alike a.age b.age && alike a.nickname b.nickname
    && alike a.owner b.owner && alike a.tags b.tags

end Pet

structure Cat where
  name : String
  lives : IntOf .uint8
  deriving Inhabited

namespace Cat

def shape : Shape Cat := .build "Cat" [
  .required "catName" .string ⟨name, fun v c => { c with name := v }⟩,
  .required "livesLeft" (.int .uint8) ⟨lives, fun v c => { c with lives := v }⟩]

def codec : Codec Cat := shape.codec

instance : Alike Cat where
  alike a b := alike a.name b.name && alike a.lives b.lives

end Cat

structure Dog where
  pet : Pet
  age : IntOf .uint8
  breed : Option String
  deriving Inhabited

namespace Dog

def shape : Shape Dog := .build "Dog" [
  .inherits Pet.shape ⟨pet, fun v d => { d with pet := v }⟩,
  .constant "species" (.str "dog"),
  .required "age" (.int .uint8) ⟨age, fun v d => { d with age := v }⟩,
  .optional "breed" .string ⟨breed, fun v d => { d with breed := v }⟩]

def codec : Codec Dog := shape.codec

instance : Alike Dog where
  alike a b := alike a.pet b.pet && alike a.age b.age && alike a.breed b.breed

end Dog

end JsonWire.Sample
