/-
  JsonWire.Proofs.Composed — codecs composed of the built-in ones.

  Lists, records, shapes and unions compose codecs into codecs, without end. What every
  composition has in common is said of `Codec.Composed`, with one case for each of them
  and no law asked of the parts: cases need not know their tags and two fields may share
  a place. Whether open unions may take part is up to its parameter.
-/

import JsonWire.Proofs.Places
import JsonWire.Proofs.Results
import JsonWire.Codec.Collections
import JsonWire.Domain
import JsonWire.Duration.Text
import JsonWire.Union.Closed
import JsonWire.Union.Open

namespace JsonWire

variable {S T F : Type}

/-! ## Built-in codecs -/

inductive Codec.BuiltIn : {α : Type} → Codec α → Prop
  | any : BuiltIn any
  | string : BuiltIn string
  | bool : BuiltIn bool
  | int (t : IntType) : BuiltIn (int t)
  | float64 : BuiltIn float64
  | float32 : BuiltIn float32
  | duration : BuiltIn duration

/-! ## Compositions -/

/-- `opened` tells whether an open union may be a part. -/
inductive Codec.Composed (opened : Prop) : {α : Type} → Codec α → Prop
  | builtIn {α : Type} {codec : Codec α} : BuiltIn codec → Composed opened codec
  | enum {S α : Type} [Scalar S] {domain : Domain S} {wrap : S → α} {unwrap : α → S} :
      BuiltIn (Scalar.codec : Codec S) → Composed opened (domain.codec.imap wrap unwrap)
  | list {α : Type} {codec : Codec α} : Composed opened codec → Composed opened (list codec)
  | record {α : Type} {codec : Codec α} : Composed opened codec → Composed opened (record codec)
  | shape {T : Type} [Inhabited T] {shape : Shape T} :
      (∀ field ∈ shape.fields, ∀ ⦃F : Type⦄ (codec : Codec F), field.2.Uses codec → Composed opened codec) →
      Composed opened shape.codec
  | closedUnion {U : Type} [Tagged U] {union : ClosedUnion U} :
      (∀ case ∈ union.cases, Composed opened case.2.codec) → Composed opened union.codec
  | openUnion {U : Type} [Tagged U] {union : OpenUnion U} : opened →
      (∀ candidate ∈ union.candidates, Composed opened candidate.2.codec) → Composed opened union.codec

/-! ## Fields -/

/-- The codec that the field uses is composed. -/
def Access.Composed (opened : Prop) (access : Access T) : Prop :=
  ∀ ⦃F : Type⦄ (codec : Codec F), access.Uses codec → codec.Composed opened

namespace Access

variable {opened : Prop}

@[simp] theorem composed_required {lens : Lens T F} {codec : Codec F} :
    (required lens codec).Composed opened ↔ codec.Composed opened :=
  forall_uses_required

@[simp] theorem composed_optional {lens : Lens T (Option F)} {codec : Codec F} :
    (optional lens codec).Composed opened ↔ codec.Composed opened :=
  forall_uses_optional

@[simp] theorem composed_nullable {lens : Lens T (Presence F)} {codec : Codec F} :
    (nullable lens codec).Composed opened ↔ codec.Composed opened :=
  forall_uses_nullable

@[simp] theorem composed_constant {literal : Json} : (constant literal : Access T).Composed opened :=
  forall_uses_constant

end Access

namespace Codec.Composed

variable {opened : Prop}

@[simp] theorem any : Codec.any.Composed opened := .builtIn .any

@[simp] theorem string : Codec.string.Composed opened := .builtIn .string

@[simp] theorem bool : Codec.bool.Composed opened := .builtIn .bool

@[simp] theorem int {t : IntType} : (Codec.int t).Composed opened := .builtIn (.int t)

@[simp] theorem float64 : Codec.float64.Composed opened := .builtIn .float64

@[simp] theorem float32 : Codec.float32.Composed opened := .builtIn .float32

@[simp] theorem duration : Codec.duration.Composed opened := .builtIn .duration

attribute [simp] Codec.Composed.list Codec.Composed.record

end Codec.Composed

/-- The codec of a shape whose fields are composed. -/
theorem Shape.composed_codec [Inhabited T] {opened : Prop} {shape : Shape T}
    (h : ∀ field ∈ shape.fields, field.2.Composed opened) : shape.codec.Composed opened :=
  .shape h

end JsonWire
