/-
  JsonWire.Error — what can go wrong, and how it is told.

  A `CodecError` is a cause; a failure inside a field, an element or an entry wraps the
  cause in the name of the place (`inField`), so nested failures form a chain whose
  names are the path to the value at fault (`fieldPath?`) and whose end is the cause
  itself (`rootCause`). A `SchemaError` is a mistake in the definition of a union.
-/

import JsonWire.Json.Render

namespace JsonWire

inductive CodecError where
  /-- A value of the wrong kind where a container is needed. -/
  | malformed (text : String)
  /-- A failure at the named place. -/
  | inField (field : String) (source : CodecError)
  | unexpectedType (expected found : String)
  | nonFinite (number : Double)
  | notInDomain (domain : String) (value : Json)
  | invalidDuration (text : String)
  | unknownVariant (union : String) (tag : Option String)
  | allVariantsFailed (union : String) (failures : List (String × CodecError))
  | unsetValue

namespace CodecError

/-- The value is of a kind that the reader does not take. -/
def unexpected (expected : String) (found : Json) : CodecError :=
  .unexpectedType expected found.kind.name

mutual

def message : CodecError → String
  | .malformed text => s!"malformed input: {text}"
  | .inField field source => s!"field `{field}`: " ++ source.message
  | .unexpectedType expected found => s!"expected {expected}, found {found}"
  | .nonFinite number => "cannot encode non-finite number " ++ NumberLayout.messageNumber.text number
  | .notInDomain domain value => value.render ++ s!" is not a member of enum `{domain}`"
  | .invalidDuration text => s!"invalid duration `{text}`"
  | .unknownVariant union tag =>
    let shown := match tag with
      | some tag => s!"`{tag}`"
      | none => "(no tag)"
    s!"unknown variant {shown} for union `{union}`"
  | .allVariantsFailed union failures =>
    s!"no variant of union `{union}` matched: " ++ "; ".intercalate (failureMessages failures)
  | .unsetValue => "value accessed on an unset field"

def failureMessages : List (String × CodecError) → List String
  | [] => []
  | (candidate, error) :: rest => (s!"{candidate}: " ++ error.message) :: failureMessages rest

end

/-- The names of the places, from the outermost inward. -/
def fields : CodecError → List String
  | .inField field source => field :: source.fields
  | _ => []

/-- Names joined by dots; an index in brackets follows without one. -/
def joinPath (fields : List String) : String :=
  fields.foldl
    (fun path field =>
      if path.isEmpty || field.toList.head? = some '[' then path ++ field else path ++ "." ++ field)
    ""

/-- Where the failure is, if it is inside a field. -/
def fieldPath? : CodecError → Option String
  | .inField field source => some (joinPath (field :: source.fields))
  | _ => none

/-- The failure without the places around it. -/
def rootCause : CodecError → CodecError
  | .inField _ source => source.rootCause
  | error => error

mutual

/-- Comparison of errors: numbers and documents in them compare as such. -/
def same : CodecError → CodecError → Bool
  | .malformed a, .malformed b => a == b
  | .inField f a, .inField g b => f == g && a.same b
  | .unexpectedType e f, .unexpectedType e' f' => e == e' && f == f'
  | .nonFinite a, .nonFinite b => alike a b
  | .notInDomain d a, .notInDomain d' b => d == d' && alike a b
  | .invalidDuration a, .invalidDuration b => a == b
  | .unknownVariant u a, .unknownVariant u' b => u == u' && a == b
  | .allVariantsFailed u as, .allVariantsFailed u' bs => u == u' && sameFailures as bs
  | .unsetValue, .unsetValue => true
  | _, _ => false

def sameFailures : List (String × CodecError) → List (String × CodecError) → Bool
  | [], [] => true
  | (c, a) :: as, (c', b) :: bs => c == c' && a.same b && sameFailures as bs
  | _, _ => false

end

instance : Alike CodecError := ⟨same⟩

end CodecError

inductive SchemaError where
  | emptyUnion (union : String)
  | emptyDiscriminatorKey (union : String)
  | duplicateTag (union tag : String)
  | duplicateCandidate (union candidate : String)
  deriving DecidableEq

def SchemaError.message : SchemaError → String
  | .emptyUnion union => s!"union `{union}` declares no variants"
  | .emptyDiscriminatorKey union => s!"union `{union}` has an empty discriminator key"
  | .duplicateTag union tag => s!"union `{union}` registers tag `{tag}` twice"
  | .duplicateCandidate union candidate => s!"union `{union}` declares candidate `{candidate}` twice"

end JsonWire
