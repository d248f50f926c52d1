/-
  JsonWire.Sample.Boxes — a closed union whose cases share a parent.
-/

import JsonWire.Sample.Scalars
import JsonWire.Shape.Declaration
import JsonWire.Union.Closed

namespace JsonWire.Sample

structure BoxBase where
  label : Option String
  deriving Inhabited

namespace BoxBase

def shape : Shape BoxBase := .build "Box" [
  .optional "label" .string ⟨label, fun v b => { b with label := v }⟩]

instance : Alike BoxBase := ⟨fun a b => alike a.label b.label⟩

end BoxBase

structure SmallBox where
  base : BoxBase
  deriving Inhabited

namespace SmallBox

def shape : Shape SmallBox := .build "SmallBox" [
  .inherits BoxBase.shape ⟨base, fun v b => { b with base := v }⟩]

def codec : Codec SmallBox := shape.codec

instance : Alike SmallBox := ⟨fun a b => alike a.base b.base⟩

end SmallBox

structure LargeBox where
  base : BoxBase
  size : Size
  deriving Inhabited

namespace LargeBox

def shape : Shape LargeBox := .build "LargeBox" [
  .inherits BoxBase.shape ⟨base, fun v b => { b with base := v }⟩,
  .required "size" Size.codec ⟨size, fun v b => { b with size := v }⟩]

def codec : Codec LargeBox := shape.codec

instance : Alike LargeBox := ⟨fun a b => alike a.base b.base && alike a.size b.size⟩

end LargeBox

inductive StorageBox where
  | small (box : SmallBox)
  | large (box : LargeBox)

namespace StorageBox

instance : Inhabited StorageBox := ⟨.small default⟩

instance : Tagged StorageBox where
  tag
    | .small _ => "small"
    | .large _ => "large"

def small? : StorageBox → Option SmallBox
  | .small box => some box
  | _ => none

def large? : StorageBox → Option LargeBox
  | .large box => some box
  | _ => none

def union : ClosedUnion StorageBox where
  name := "Box"
  key := "type"
  cases := [("small", ⟨SmallBox, SmallBox.codec, .small, small?⟩),
    ("large", ⟨LargeBox, LargeBox.codec, .large, large?⟩)]
  key_nonempty := type_ne_empty
  cases_nonempty := by simp
  tags_nodup := by decide

def codec : Codec StorageBox := union.codec

instance : Alike StorageBox where
  alike
    | .small a, .small b => alike a b
    | .large a, .large b => alike a b
    | _, _ => false

end StorageBox

structure Storage where
  box : StorageBox
  deriving Inhabited

namespace Storage

def shape : Shape Storage := .build "Storage" [
  .required "box" StorageBox.codec ⟨box, fun v s => { s with box := v }⟩]

def codec : Codec Storage := shape.codec

instance : Alike Storage := ⟨fun a b => alike a.box b.box⟩

end Storage

end JsonWire.Sample
