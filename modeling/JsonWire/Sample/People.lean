/-
  JsonWire.Sample.People — an open union in a nullable field, and one in a list.
-/

import JsonWire.Codec.Collections
import JsonWire.Sample.Metals

namespace JsonWire.Sample

structure CompoundName where
  name : String
  secondName : Option String
  deriving Inhabited

namespace CompoundName

def shape : Shape CompoundName := .build "CompoundName" [
  .required "name" .string ⟨name, fun v n => { n with name := v }⟩,
  .optional "secondName" .string ⟨secondName, fun v n => { n with secondName := v }⟩]

def codec : Codec CompoundName := shape.codec

instance : Alike CompoundName :=
  ⟨fun a b => alike a.name b.name && alike a.secondName b.secondName⟩

end CompoundName

inductive Name where
  | simple (text : String)
  | compound (name : CompoundName)
  deriving Inhabited

namespace Name

instance : Tagged Name where
  tag
    | .simple _ => "string"
    | .compound _ => "CompoundName"

def simple? : Name → Option String
  | .simple text => some text
  | _ => none

def compound? : Name → Option CompoundName
  | .compound name => some name
  | _ => none

def union : OpenUnion Name where
  name := "Name"
  candidates := [("string", ⟨String, .string, .simple, simple?⟩),
    ("CompoundName", ⟨CompoundName, CompoundName.codec, .compound, compound?⟩)]
  candidates_nonempty := by simp
  names_nodup := by decide

def codec : Codec Name := union.codec

instance : Alike Name where
  alike
    | .simple a, .simple b => alike a b
    | .compound a, .compound b => alike a b
    | _, _ => false

end Name

structure Person where
  name : Presence Name
  metals : List Metal
  deriving Inhabited

namespace Person

def shape : Shape Person := .build "Person" [
  .nullable "name" Name.codec ⟨name, fun v p => { p with name := v }⟩,
  .required "metals" (.list Metal.codec) ⟨metals, fun v p => { p with metals := v }⟩]

def codec : Codec Person := shape.codec

instance : Alike Person := ⟨fun a b => alike a.name b.name && alike a.metals b.metals⟩

end Person

end JsonWire.Sample
