/-
  JsonWire.Sample.Metals — an open union of an object and a bare string.
-/

import JsonWire.Sample.Scalars
import JsonWire.Shape.Declaration
import JsonWire.Union.Open

namespace JsonWire.Sample

structure Alloy where
  name : String
  percentage : Double
  deriving Inhabited

namespace Alloy

def shape : Shape Alloy := .build "Alloy" [
  .required "name" .string ⟨name, fun v a => { a with name := v }⟩,
  .required "percentage" .float64 ⟨percentage, fun v a => { a with percentage := v }⟩]

def codec : Codec Alloy := shape.codec

instance : Alike Alloy := ⟨fun a b => alike a.name b.name && alike a.percentage b.percentage⟩

end Alloy

inductive Metal where
  | alloy (alloy : Alloy)
  | pure (metal : MetalStringValues)
  deriving Inhabited

namespace Metal

instance : Tagged Metal where
  tag
    | .alloy _ => "Alloy"
    | .pure _ => "MetalStringValues"

def alloy? : Metal → Option Alloy
  | .alloy held => some held
  | _ => none

def pure? : Metal → Option MetalStringValues
  | .pure metal => some metal
  | _ => none

def union : OpenUnion Metal where
  name := "Metal"
  candidates := [("Alloy", ⟨Alloy, Alloy.codec, .alloy, alloy?⟩),
    ("MetalStringValues", ⟨MetalStringValues, MetalStringValues.codec, .pure, pure?⟩)]
  candidates_nonempty := by simp
  names_nodup := by decide

def codec : Codec Metal := union.codec

instance : Alike Metal where
  alike
    | .alloy a, .alloy b => alike a b
    | .pure a, .pure b => alike a b
    | _, _ => false

end Metal

end JsonWire.Sample
