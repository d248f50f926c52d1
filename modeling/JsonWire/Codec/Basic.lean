/-
  JsonWire.Codec.Basic — a value's two ways over the wire.

  A codec writes values of a type as JSON and reads them back. Both ways may report
  events and may fail; neither is assumed to be the other's inverse. A text is read in
  two steps, of which the first fails as a whole (`ofText?` answers nothing).
-/

import JsonWire.Json.Document
import JsonWire.Traced

namespace JsonWire

structure Codec (α : Type) where
  encode : α → Traced Json
  decode : Json → Traced α

namespace Codec

variable {α β : Type}

/-- Reads a value from a text, unless the text is no JSON. -/
def ofText? (codec : Codec α) (text : String) : Option (Traced α) :=
  (Json.parse? text).map codec.decode

/-- The compact text of an encoded value. -/
def toText (codec : Codec α) (value : α) : Traced String := do
  let json ← codec.encode value
  return json.render

/-- The same wire form under another type. -/
def imap (codec : Codec α) (wrap : α → β) (unwrap : β → α) : Codec β where
  encode value := codec.encode (unwrap value)
  decode raw := do
    let value ← codec.decode raw
    return wrap value

/-- Reads with `read?`; a value that it does not take is of an unexpected kind. -/
def expecting (name : String) (read? : Json → Option α) (raw : Json) : Traced α :=
  match read? raw with
  | some value => pure value
  | none => .fail (.unexpected name raw)

/-- Any JSON value, as it is. -/
def any : Codec Json := ⟨pure, pure⟩

def string : Codec String where
  encode text := pure (.str text)
  decode := expecting "string" Json.string?

def bool : Codec Bool where
  encode b := pure (.bool b)
  decode := expecting "boolean" Json.bool?

end Codec

end JsonWire
