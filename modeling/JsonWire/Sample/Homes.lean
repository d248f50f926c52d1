/-
  JsonWire.Sample.Homes — shapes around other samples, durations and a lone nullable.
-/

import JsonWire.Duration.Text
import JsonWire.Sample.Furniture
import JsonWire.Sample.Pets

namespace JsonWire.Sample

structure Home where
  address : String
  dog : Option Dog
  rooms : Record Room
  deriving Inhabited

namespace Home

def shape : Shape Home := .build "Home" [
  .required "address" .string ⟨address, fun v h => { h with address := v }⟩,
  .optional "dog" Dog.codec ⟨dog, fun v h => { h with dog := v }⟩,
  .required "rooms" (.record Room.codec) ⟨rooms, fun v h => { h with rooms := v }⟩]

def codec : Codec Home := shape.codec

instance : Alike Home :=
  ⟨fun a b => alike a.address b.address && alike a.dog b.dog && alike a.rooms b.rooms⟩

end Home

structure HasScalarNullable where
  scalarNullableField : Presence String
  deriving Inhabited

namespace HasScalarNullable

def shape : Shape HasScalarNullable := .build "HasScalarNullable" [
  .nullable "scalarNullableField" .string
    ⟨scalarNullableField, fun v h => { h with scalarNullableField := v }⟩]

def codec : Codec HasScalarNullable := shape.codec

instance : Alike HasScalarNullable :=
  ⟨fun a b => alike a.scalarNullableField b.scalarNullableField⟩

end HasScalarNullable

structure Meeting where
  title : String
  duration : Duration
  reminder : Option Duration
  deriving Inhabited

namespace Meeting

def shape : Shape Meeting := .build "Meeting" [
  .required "title" .string ⟨title, fun v m => { m with title := v }⟩,
  .required "duration" .duration ⟨duration, fun v m => { m with duration := v }⟩,
  .optional "reminder" .duration ⟨reminder, fun v m => { m with reminder := v }⟩]

def codec : Codec Meeting := shape.codec

instance : Alike Meeting :=
  ⟨fun a b => alike a.title b.title && alike a.duration b.duration && alike a.reminder b.reminder⟩

end Meeting

end JsonWire.Sample
