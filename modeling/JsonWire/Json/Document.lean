/-
  JsonWire.Json.Document — the value of a JSON text.

  Tokens are folded over a stack of open arrays and objects and the one thing that may
  come next (`Expected`). A repeated key keeps its first place and takes the last value.
  Up to 127 brackets may be open at a time. A text is accepted when it holds one value
  and nothing else.
-/

import JsonWire.Json.Token

namespace JsonWire.Json

/-- An array or object being read. Items are kept newest first; an object knows the key
read last. -/
inductive Frame where
  | array (items : List Json)
  | object (members : List (String × Json)) (key : String)

inductive Expected where
  | value
  /-- After an opening bracket: a value, or the closing bracket. -/
  | firstItem
  /-- After an opening brace: a key, or the closing brace. -/
  | firstKey
  | key
  | colon
  /-- After a value inside brackets: a comma, or the closing bracket. -/
  | separator
  /-- After the outermost value. -/
  | nothing (document : Json)

structure Reading where
  stack : List Frame
  expected : Expected

namespace Reading

def start : Reading := ⟨[], .value⟩

/-- Brackets that may be open at once. -/
def maxOpen : Nat := 127

/-- A complete value goes into the innermost open array or object. -/
def put (value : Json) : List Frame → Reading
  | [] => ⟨[], .nothing value⟩
  | .array items :: outer => ⟨.array (value :: items) :: outer, .separator⟩
  | .object members key :: outer =>
    ⟨.object (Entries.insert key value members) key :: outer, .separator⟩

def openFrame? (frame : Frame) (expected : Expected) (stack : List Frame) : Option Reading :=
  if stack.length < maxOpen then some ⟨frame :: stack, expected⟩ else none

/-- A token where a value must begin. -/
def beginValue? (stack : List Frame) : Token → Option Reading
  | .openArray => openFrame? (.array []) .firstItem stack
  | .openObject => openFrame? (.object [] "") .firstKey stack
  | .scalar value => some (put value stack)
  | .text text => some (put (.str text) stack)
  | _ => none

/-- A token after the opening bracket or after a value, where the frame may close. -/
def close? (stack : List Frame) : Token → Option Reading
  | .closeArray => match stack with
    | .array items :: outer => some (put (.arr items.reverse) outer)
    | _ => none
  | .closeObject => match stack with
    | .object members _ :: outer => some (put (.obj members) outer)
    | _ => none
  | _ => none

def readKey? (stack : List Frame) : Token → Option Reading
  | .text key => match stack with
    | .object members _ :: outer => some ⟨.object members key :: outer, .colon⟩
    | _ => none
  | _ => none

def step? (reading : Reading) (token : Token) : Option Reading :=
  let stack := reading.stack
  match reading.expected, token with
  | .value, token => beginValue? stack token
  | .firstItem, .closeArray => close? stack token
  | .firstItem, token => beginValue? stack token
  | .firstKey, .closeObject => close? stack token
  | .firstKey, token => readKey? stack token
  | .key, token => readKey? stack token
  | .colon, .colon => some ⟨stack, .value⟩
  | .separator, .comma => match stack with
    | .array _ :: _ => some ⟨stack, .value⟩
    | .object _ _ :: _ => some ⟨stack, .key⟩
    | [] => none
  | .separator, token => close? stack token
  | _, _ => none

def document? (reading : Reading) : Option Json :=
  match reading.expected with
  | .nothing document => some document
  | _ => none

end Reading

/-- The value that a list of tokens spells. -/
def ofTokens? (tokens : List Token) : Option Json := do
  let reading ← tokens.foldlM Reading.step? Reading.start
  reading.document?

/-- The value that a text holds, or nothing if the text is not JSON. -/
def parse? (text : String) : Option Json := do
  let tokens ← Token.scan? text.toList
  ofTokens? tokens

/-- The value of a text given in UTF-8. -/
def parseBytes? (bytes : ByteArray) : Option Json := do
  let text ← String.fromUTF8? bytes
  parse? text

end JsonWire.Json
