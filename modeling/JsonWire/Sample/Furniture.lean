/-
  JsonWire.Sample.Furniture — a closed union inside a list inside a shape.
-/

import JsonWire.Codec.Collections
import JsonWire.Codec.Numbers
import JsonWire.Shape.Declaration
import JsonWire.Union.Closed

namespace JsonWire.Sample

structure Chair where
  legs : IntOf .int64
  deriving Inhabited

namespace Chair

def shape : Shape Chair := .build "Chair" [
  .required "legs" (.int .int64) ⟨legs, fun v c => { c with legs := v }⟩]

def codec : Codec Chair := shape.codec

instance : Alike Chair := ⟨fun a b => alike a.legs b.legs⟩

end Chair

structure Bench where
  length : Double
  seats : IntOf .int64
  deriving Inhabited

namespace Bench

def shape : Shape Bench := .build "Bench" [
  .required "length" .float64 ⟨length, fun v b => { b with length := v }⟩,
  .required "seats" (.int .int64) ⟨seats, fun v b => { b with seats := v }⟩]

def codec : Codec Bench := shape.codec

instance : Alike Bench := ⟨fun a b => alike a.length b.length && alike a.seats b.seats⟩

end Bench

inductive Seating where
  | chair (chair : Chair)
  | bench (bench : Bench)
  deriving Inhabited

namespace Seating

instance : Tagged Seating where
  tag
    | .chair _ => "chair"
    | .bench _ => "bench"

def chair? : Seating → Option Chair
  | .chair held => some held
  | _ => none

def bench? : Seating → Option Bench
  | .bench held => some held
  | _ => none

def union : ClosedUnion Seating where
  name := "Seating"
  key := "kind"
  cases := [("chair", ⟨Chair, Chair.codec, .chair, chair?⟩),
    ("bench", ⟨Bench, Bench.codec, .bench, bench?⟩)]
  key_nonempty := by decide
  cases_nonempty := by simp
  tags_nodup := by decide

def codec : Codec Seating := union.codec

instance : Alike Seating where
  alike
    | .chair a, .chair b => alike a b
    | .bench a, .bench b => alike a b
    | _, _ => false

end Seating

structure Room where
  name : String
  seating : List Seating
  deriving Inhabited

namespace Room

def shape : Shape Room := .build "Room" [
  .required "name" .string ⟨name, fun v r => { r with name := v }⟩,
  .required "seating" (.list Seating.codec) ⟨seating, fun v r => { r with seating := v }⟩]

def codec : Codec Room := shape.codec

instance : Alike Room := ⟨fun a b => alike a.name b.name && alike a.seating b.seating⟩

end Room

end JsonWire.Sample
