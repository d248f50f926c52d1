/-
  JsonWire.Union.Closed — unions whose objects carry a tag.

  The member under the discriminator key names the case, and the whole object is then
  read by that case. Writing puts the tag in front of the other members or after them
  and drops whatever the payload itself has under the key. A tag that no case has is an
  unknown variant, and so is a missing one; each is reported as it arises.
-/

import JsonWire.Union.Case

namespace JsonWire

inductive TagPosition where
  | first
  | last
  deriving DecidableEq

structure ClosedUnion (U : Type) where
  name : String
  key : String
  position : TagPosition := .first
  cases : List (String × Case U)
  key_nonempty : key ≠ ""
  cases_nonempty : cases ≠ []
  tags_nodup : (Entries.keys cases).Nodup

namespace ClosedUnion

variable {U : Type}

/-- The union of these cases. An empty key is found before a missing case, and that
before a tag given twice. -/
def ofCases (name key : String) (position : TagPosition) (cases : List (String × Case U)) :
    Except SchemaError (ClosedUnion U) :=
  if hkey : key = "" then .error (.emptyDiscriminatorKey name)
  else if hcases : cases = [] then .error (.emptyUnion name)
  else
    match htags : Entries.firstRepeated? (Entries.keys cases) with
    | some tag => .error (.duplicateTag name tag)
    | none => .ok ⟨name, key, position, cases, hkey, hcases, Case.nodup_of_unrepeated htags⟩

def tags (union : ClosedUnion U) : List String := Entries.keys union.cases

def case? (union : ClosedUnion U) (tag : String) : Option (Case U) := union.cases.lookup tag

/-- Reports and fails. -/
def unknown {α : Type} (union : ClosedUnion U) (tag : Option String) : Traced α := do
  Traced.report (.unknownDiscriminator union.name tag)
  .fail (.unknownVariant union.name tag)

/-- The tag of an object. A member that is no string stands for itself, as text. -/
def peekTag (union : ClosedUnion U) (raw : Json) : Traced String :=
  match raw with
  | .obj members =>
    match members.lookup union.key with
    | some (.str tag) => pure tag
    | some other => union.unknown (some other.render)
    | none => union.unknown none
  | raw => .fail (.malformed s!"expected object for union `{union.name}`, found {raw.kind.name}")

def decode (union : ClosedUnion U) (raw : Json) : Traced (UnionValue U) := do
  let tag ← union.peekTag raw
  match union.case? tag with
  | some case => do
    let value ← case.decode raw
    return ⟨tag, value⟩
  | none => union.unknown (some tag)

/-- The members with the tag in its place. -/
def withTag (union : ClosedUnion U) (tag : String) (members : List (String × Json)) :
    List (String × Json) :=
  let rest := Entries.erase union.key members
  match union.position with
  | .first => (union.key, .str tag) :: rest
  | .last => rest ++ [(union.key, .str tag)]

def encode [Tagged U] (union : ClosedUnion U) (value : U) : Traced Json :=
  match (union.case? (tag value)).bind (·.encode? value) with
  | none => union.unknown (some (tag value))
  | some encoding => do
    let json ← encoding
    match json with
    | .obj members => return .obj (union.withTag (tag value) members)
    | other => .fail (.unexpected "object" other)

/-- The codec of the bare values. -/
def codec [Tagged U] (union : ClosedUnion U) : Codec U where
  encode := union.encode
  decode raw := do
    let found ← union.decode raw
    return found.value

end ClosedUnion

end JsonWire
