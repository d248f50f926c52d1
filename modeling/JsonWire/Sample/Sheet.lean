/-
  JsonWire.Sample.Sheet — a value with a place for every slot.

  A slot is a name, a kind of content and a type; a sheet holds the content of every
  slot, so the places of two slots are independent whatever the slots are. `Layered n`
  is a sheet over `n` sheets below it, the value of a shape that inherits `n` levels
  deep. `Sheet.slots` lists the slots that shapes are made of here.
-/

import JsonWire.Sample.WireType

namespace JsonWire.Sample

inductive SlotKind where
  | required
  | optional
  | nullable
  deriving DecidableEq

/-- The content of a slot of this kind whose values are of the given type. -/
def SlotKind.Content : SlotKind → Type → Type
  | .required, α => α
  | .optional, α => Option α
  | .nullable, α => Presence α

structure Slot where
  name : String
  kind : SlotKind
  type : WireType
  deriving DecidableEq

namespace Slot

def Content (slot : Slot) : Type := slot.kind.Content slot.type.Carrier

/-- The content before anything is set: the default value, absent, or unset. -/
def initial : (slot : Slot) → slot.Content
  | ⟨_, .required, type⟩ => (default : type.Carrier)
  | ⟨_, .optional, type⟩ => (none : Option type.Carrier)
  | ⟨_, .nullable, type⟩ => (.absent : Presence type.Carrier)

/-- The content that holds a value. -/
def hold : (slot : Slot) → slot.type.Carrier → slot.Content
  | ⟨_, .required, type⟩, value => (value : type.Carrier)
  | ⟨_, .optional, type⟩, value => (some value : Option type.Carrier)
  | ⟨_, .nullable, type⟩, value => (.present value : Presence type.Carrier)

/-- The content that is an explicit null, where the kind has one. -/
def null? : (slot : Slot) → Option slot.Content
  | ⟨_, .nullable, type⟩ => some (.null : Presence type.Carrier)
  | _ => none

/-- The access that fits the kind of the slot, at a place that holds its content. -/
def access {T : Type} : (slot : Slot) → Lens T slot.Content → Access T
  | ⟨_, .required, type⟩, (lens : Lens T type.Carrier) => .required lens type.codec
  | ⟨_, .optional, type⟩, (lens : Lens T (Option type.Carrier)) => .optional lens type.codec
  | ⟨_, .nullable, type⟩, (lens : Lens T (Presence type.Carrier)) => .nullable lens type.codec

end Slot

def Sheet : Type := (slot : Slot) → slot.Content

namespace Sheet

instance : Inhabited Sheet := ⟨Slot.initial⟩

def put (slot : Slot) (content : slot.Content) (sheet : Sheet) : Sheet := fun other =>
  if same : slot = other then same ▸ content else sheet other

def lens (slot : Slot) : Lens Sheet slot.Content := ⟨fun sheet => sheet slot, put slot⟩

theorem lawful_lens (slot : Slot) : (lens slot).Lawful where
  get_set content sheet := by simp [lens, put]
  set_get sheet := by
    funext other
    by_cases same : slot = other
    · subst same; simp [lens, put]
    · simp [lens, put, same]
  set_set content content' sheet := by
    funext other
    by_cases same : slot = other <;> simp [lens, put, same]

theorem independent_lens {a b : Slot} (distinct : a ≠ b) : (lens a).Independent (lens b) where
  get_set_left content sheet := by simp [lens, put, Ne.symm distinct]
  get_set_right content sheet := by simp [lens, put, distinct]
  set_comm content content' sheet := by
    funext other
    by_cases ha : a = other
    · subst ha; simp [lens, put, Ne.symm distinct]
    · simp [lens, put, ha]

def slots : List Slot := [
  ⟨"str", .required, .string⟩,
  ⟨"bool", .required, .bool⟩,
  ⟨"i8", .required, .int .int8⟩,
  ⟨"i16", .required, .int .int16⟩,
  ⟨"i32", .required, .int .int32⟩,
  ⟨"i64", .required, .int .int64⟩,
  ⟨"u8", .required, .int .uint8⟩,
  ⟨"u16", .required, .int .uint16⟩,
  ⟨"u32", .required, .int .uint32⟩,
  ⟨"u64", .required, .int .uint64⟩,
  ⟨"f32", .required, .float32⟩,
  ⟨"f64", .required, .float64⟩,
  ⟨"any", .required, .any⟩,
  ⟨"dur", .required, .duration⟩,
  ⟨"ints", .required, .list (.int .int64)⟩,
  ⟨"floats", .required, .list .float64⟩,
  ⟨"table", .required, .record .float64⟩,
  ⟨"boxed", .required, .box (.int .int64)⟩,
  ⟨"size", .required, .model .size⟩,
  ⟨"cat", .required, .model .cat⟩,
  ⟨"seats", .required, .list (.model .seating)⟩,
  ⟨"ostr", .optional, .string⟩,
  ⟨"oint", .optional, .int .int64⟩,
  ⟨"oflt", .optional, .float64⟩,
  ⟨"oany", .optional, .any⟩,
  ⟨"odur", .optional, .duration⟩,
  ⟨"oints", .optional, .list (.int .int64)⟩,
  ⟨"ocat", .optional, .model .cat⟩,
  ⟨"nstr", .nullable, .string⟩,
  ⟨"nint", .nullable, .int .int64⟩,
  ⟨"nflt", .nullable, .float64⟩,
  ⟨"nany", .nullable, .any⟩,
  ⟨"ndur", .nullable, .duration⟩,
  ⟨"ncat", .nullable, .model .cat⟩,
  ⟨"nname", .nullable, .model .name⟩]

def slot? (name : String) : Option Slot := slots.find? (·.name = name)

end Sheet

/-! ## Sheets on sheets -/

/-- A sheet of one's own over the value inherited from. -/
structure Layer (Base : Type) where
  own : Sheet
  base : Base
  deriving Inhabited

def Layered : Nat → Type
  | 0 => Sheet
  | n + 1 => Layer (Layered n)

namespace Layered

instance inhabited : (n : Nat) → Inhabited (Layered n)
  | 0 => inferInstanceAs (Inhabited Sheet)
  | n + 1 =>
    have := inhabited n
    inferInstanceAs (Inhabited (Layer (Layered n)))

def own : (n : Nat) → Lens (Layered n) Sheet
  | 0 => Lens.id
  | _ + 1 => ⟨Layer.own, fun sheet layer => { layer with own := sheet }⟩

def base (n : Nat) : Lens (Layered (n + 1)) (Layered n) :=
  ⟨Layer.base, fun below layer => { layer with base := below }⟩

/-- The sheet `depth` levels below the outermost. -/
def sheet? : (n depth : Nat) → Option (Lens (Layered n) Sheet)
  | n, 0 => some (own n)
  | 0, _ + 1 => none
  | n + 1, depth + 1 => (sheet? n depth).map (base n).comp

/-- All sheets, from the outermost inward. -/
def sheets : (n : Nat) → Layered n → List Sheet
  | 0, sheet => [sheet]
  | n + 1, layer => Layer.own layer :: sheets n (Layer.base layer)

end Layered

end JsonWire.Sample
