/-
  JsonWire.Union.Open — unions without a tag on the wire.

  Candidates are tried in declared order and the first that reads the document wins, so
  the order is part of the definition. Each candidate that does not is reported, and if
  none does the failure lists them all. Writing goes by the tag of the value alone.
-/

import JsonWire.Union.Case

namespace JsonWire

structure OpenUnion (U : Type) where
  name : String
  candidates : List (String × Case U)
  candidates_nonempty : candidates ≠ []
  names_nodup : (Entries.keys candidates).Nodup

namespace OpenUnion

variable {U : Type}

def ofCandidates (name : String) (candidates : List (String × Case U)) :
    Except SchemaError (OpenUnion U) :=
  if hcandidates : candidates = [] then .error (.emptyUnion name)
  else
    match hnames : Entries.firstRepeated? (Entries.keys candidates) with
    | some candidate => .error (.duplicateCandidate name candidate)
    | none => .ok ⟨name, candidates, hcandidates, Case.nodup_of_unrepeated hnames⟩

def names (union : OpenUnion U) : List String := Entries.keys union.candidates

/-- Tries the candidates in order, the failures so far at hand. -/
def tryEach (name : String) (raw : Json) (failures : List (String × CodecError)) :
    List (String × Case U) → Traced (UnionValue U)
  | [] => .fail (.allVariantsFailed name failures)
  | (candidate, case) :: rest =>
    let attempt := case.decode raw
    match attempt.result with
    | .ok value => ⟨attempt.events, .ok ⟨candidate, value⟩⟩
    | .error error =>
      let later := tryEach name raw (failures ++ [(candidate, error)]) rest
      ⟨attempt.events ++ .candidateRejected name candidate error :: later.events, later.result⟩

def decode (union : OpenUnion U) (raw : Json) : Traced (UnionValue U) :=
  tryEach union.name raw [] union.candidates

def encode [Tagged U] (union : OpenUnion U) (value : U) : Traced Json :=
  match (union.candidates.lookup (tag value)).bind (·.encode? value) with
  | none => .fail (.unknownVariant union.name (some (tag value)))
  | some encoding => encoding

/-- The codec of the bare values. -/
def codec [Tagged U] (union : OpenUnion U) : Codec U where
  encode := union.encode
  decode raw := do
    let found ← union.decode raw
    return found.value

end OpenUnion

end JsonWire
