/-
  JsonWire.Codec.Collections — lists and records.

  A list is an array, a record an object; elements and entries go through one codec, in
  order, and the first failure ends the run under the element's index or the entry's
  key. A record keeps its entries in order and has no key twice.
-/

import JsonWire.Codec.Basic

namespace JsonWire

/-- Values by key, in insertion order. -/
structure Record (α : Type) where
  entries : List (String × α)
  keys_nodup : (Entries.keys entries).Nodup

namespace Record

variable {α : Type}

def empty : Record α := ⟨[], List.nodup_nil⟩

instance : Inhabited (Record α) := ⟨empty⟩

def insert (record : Record α) (key : String) (value : α) : Record α :=
  ⟨Entries.insert key value record.entries, Entries.keys_insert_nodup record.keys_nodup key value⟩

def ofList (pairs : List (String × α)) : Record α :=
  ⟨Entries.ofList pairs, Entries.keys_ofList_nodup pairs⟩

/-- Records compare by key, whatever their order. -/
instance [Alike α] : Alike (Record α) where
  alike a b := a.entries.length == b.entries.length &&
    a.entries.all fun (key, value) =>
      match b.entries.lookup key with
      | some other => alike value other
      | none => false

end Record

namespace Codec

variable {α β : Type}

/-- The place of an element: its index in brackets. -/
def indexField (i : Nat) : String := s!"[{i}]"

/-- Runs a step on each element, from the given index on. -/
def eachItem (step : α → Traced β) : Nat → List α → Traced (List β)
  | _, [] => pure []
  | i, item :: rest => do
    let done ← (step item).inField (indexField i)
    let more ← eachItem step (i + 1) rest
    return done :: more

/-- Runs a step on the value of each entry. -/
def eachEntry (step : α → Traced β) : List (String × α) → Traced (List (String × β))
  | [] => pure []
  | (key, value) :: rest => do
    let done ← (step value).inField key
    let more ← eachEntry step rest
    return (key, done) :: more

def list (codec : Codec α) : Codec (List α) where
  encode items := do
    let encoded ← eachItem codec.encode 0 items
    return .arr encoded
  decode
    | .arr items => eachItem codec.decode 0 items
    | raw => .fail (.malformed s!"expected array, found {raw.kind.name}")

def record (codec : Codec α) : Codec (Record α) where
  encode record := do
    let encoded ← eachEntry codec.encode record.entries
    return .obj encoded
  decode
    | .obj members => do
      let decoded ← eachEntry codec.decode members
      return Record.ofList decoded
    | raw => .fail (.malformed s!"expected object, found {raw.kind.name}")

end Codec

end JsonWire
