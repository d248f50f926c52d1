/-
  JsonWire.Shape.Basic — objects with declared fields.

  A shape is an ordered list of fields, no name twice. Writing follows that order and
  leaves out what is absent. Reading follows it too: the shape decides which members
  are looked at and in which order, not the document, and a field whose member is
  missing keeps the content of the target. Keys that no field declares are reported, and
  only after every field has been read. A target is replaced as a whole or not at all
  (`patchInto`).
-/

import JsonWire.Shape.Access

namespace JsonWire

structure Shape (T : Type) where
  name : String
  fields : List (String × Access T)
  nullPolicy : NullPolicy
  names_nodup : (Entries.keys fields).Nodup

namespace Shape

variable {T : Type}

def names (shape : Shape T) : List String := Entries.keys shape.fields

def field? (shape : Shape T) (name : String) : Option (Access T) := shape.fields.lookup name

/-! ## Writing -/

def encodeFields (x : T) : List (String × Access T) → Traced (List (String × Json))
  | [] => pure []
  | (name, access) :: rest => do
    let slot ← (access.encode x).inField name
    let members ← encodeFields x rest
    return match slot.member? with
      | some json => (name, json) :: members
      | none => members

def encodeMembers (shape : Shape T) (x : T) : Traced (List (String × Json)) :=
  encodeFields x shape.fields

def encode (shape : Shape T) (x : T) : Traced Json := do
  let members ← shape.encodeMembers x
  return .obj members

/-! ## Reading -/

/-- A null that the policy does not let an optional field have. -/
def refusesNull (policy : NullPolicy) (access : Access T) (item : Json) : Bool :=
  item.isNull && access.kind = .optional && policy = .reject

def decodeField (policy : NullPolicy) (access : Access T) (item : Json) (target : T) : Traced T :=
  if refusesNull policy access item then .fail (.unexpected "non-null value" item)
  else access.decode item target

def decodeFields (policy : NullPolicy) (members : List (String × Json)) :
    List (String × Access T) → T → Traced T
  | [], target => pure target
  | (name, access) :: rest, target =>
    match members.lookup name with
    | none => decodeFields policy members rest target
    | some item => do
      let target ← (decodeField policy access item target).inField name
      decodeFields policy members rest target

/-- One event for each member that no field declares, in document order. -/
def unknownKeys (shape : Shape T) (members : List (String × Json)) : List Event :=
  ((Entries.keys members).filter (· ∉ shape.names)).map (.unknownKey shape.name)

/-- Reads a document over a target. -/
def patch (shape : Shape T) (raw : Json) (target : T) : Traced T :=
  match raw with
  | .obj members => do
    let result ← decodeFields shape.nullPolicy members shape.fields target
    Traced.reportAll (shape.unknownKeys members)
    return result
  | raw => .fail (.malformed s!"expected object for `{shape.name}`, found {raw.kind.name}")

/-- Reads a document into the target at hand: into a scratch value, which takes its place only if every
field was read. -/
def patchInto (shape : Shape T) (raw : Json) : StateM T (Traced Unit) := do
  let target ← get
  let scratch := shape.patch raw target
  match scratch.result with
  | .ok whole => set whole
  | .error _ => pure ()
  return Functor.discard scratch

/-- What the target is afterwards. -/
def patched (shape : Shape T) (raw : Json) (target : T) : T := ((shape.patchInto raw).run target).2

section Targets

variable {shape : Shape T} {raw : Json} {target : T}

/-- The run ends as reading into the scratch value does, and commits it then. -/
theorem run_patchInto : (shape.patchInto raw).run target
    = (Functor.discard (shape.patch raw target),
        match (shape.patch raw target).result with
        | .ok whole => whole
        | .error _ => target) := by
  simp only [patchInto, StateT.run_bind, StateT.run_get, pure_bind]
  cases (shape.patch raw target).result <;> rfl

theorem patched_of_ok {result : T} (h : (shape.patch raw target).result = .ok result) :
    shape.patched raw target = result := by
  rw [patched, run_patchInto, h]

/-- A document that is refused leaves the target as it was. -/
theorem patched_of_error {e : CodecError} (h : (shape.patch raw target).result = .error e) :
    shape.patched raw target = target := by
  rw [patched, run_patchInto, h]

end Targets

/-- Reads a document over the default value. -/
def decode [Inhabited T] (shape : Shape T) (raw : Json) : Traced T := shape.patch raw default

def codec [Inhabited T] (shape : Shape T) : Codec T := ⟨shape.encode, shape.decode⟩

end Shape

end JsonWire
