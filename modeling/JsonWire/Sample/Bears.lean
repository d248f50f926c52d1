/-
  JsonWire.Sample.Bears — a closed union whose cases differ in the type of one key.
-/

import JsonWire.Sample.Scalars
import JsonWire.Shape.Declaration
import JsonWire.Union.Closed

namespace JsonWire.Sample

structure PolarBear where
  size : Size
  deriving Inhabited

namespace PolarBear

def shape : Shape PolarBear := .build "PolarBear" [
  .required "size" Size.codec ⟨size, fun v b => { b with size := v }⟩]

def codec : Codec PolarBear := shape.codec

instance : Alike PolarBear := ⟨fun a b => alike a.size b.size⟩

end PolarBear

structure GrizzlyBear where
  size : String
  region : Presence String
  deriving Inhabited

namespace GrizzlyBear

def shape : Shape GrizzlyBear := .build "GrizzlyBear" [
  .required "size" .string ⟨size, fun v b => { b with size := v }⟩,
  .nullable "region" .string ⟨region, fun v b => { b with region := v }⟩]

def codec : Codec GrizzlyBear := shape.codec

instance : Alike GrizzlyBear := ⟨fun a b => alike a.size b.size && alike a.region b.region⟩

end GrizzlyBear

inductive Bear where
  | polar (bear : PolarBear)
  | grizzly (bear : GrizzlyBear)
  deriving Inhabited

namespace Bear

instance : Tagged Bear where
  tag
    | .polar _ => "polar"
    | .grizzly _ => "grizzly"

def polar? : Bear → Option PolarBear
  | .polar bear => some bear
  | _ => none

def grizzly? : Bear → Option GrizzlyBear
  | .grizzly bear => some bear
  | _ => none

def union : ClosedUnion Bear where
  name := "Bear"
  key := "type"
  cases := [("polar", ⟨PolarBear, PolarBear.codec, .polar, polar?⟩),
    ("grizzly", ⟨GrizzlyBear, GrizzlyBear.codec, .grizzly, grizzly?⟩)]
  key_nonempty := type_ne_empty
  cases_nonempty := by simp
  tags_nodup := by decide

def codec : Codec Bear := union.codec

instance : Alike Bear where
  alike
    | .polar a, .polar b => alike a b
    | .grizzly a, .grizzly b => alike a b
    | _, _ => false

end Bear

end JsonWire.Sample
