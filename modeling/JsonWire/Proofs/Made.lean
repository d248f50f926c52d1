/-
  JsonWire.Proofs.Made — how codecs are made.

  A codec is `Made` of the built-in scalars by enumerations, lists, records, shapes and
  unions, where each step keeps to its laws: an enumeration wraps a scalar in a way that
  can be undone, and the scalar is read back from what its codec writes and never fails at
  a place inside (`Flat`); the fields of a shape lie at places of their own; a case knows
  its values, and a case of a closed union never looks at the tag. What holds of every
  such codec is then one induction, with a case for each way of making one.
-/

import JsonWire.Proofs.Membership
import JsonWire.Proofs.SettlingUnions

namespace JsonWire

variable {α β S T F : Type}

/-! ## Failures at no place -/

/-- An error of a value itself: it is at no place inside, and no union has tried the value. -/
def CodecError.Plain : CodecError → Prop
  | .inField .. => False
  | .allVariantsFailed .. => False
  | _ => True

theorem CodecError.Mistyped.plain {e : CodecError} (h : e.Mistyped) : e.Plain := by
  cases e with
  | unexpectedType expected found => trivial
  | _ => exact h.elim

/-- A codec that only ever fails at no place. -/
def Codec.Flat (codec : Codec α) : Prop := ∀ raw e, (codec.decode raw).result = .error e → e.Plain

namespace Codec

theorem flat_any : any.Flat := fun _ _ h => nomatch h

theorem flat_bool : bool.Flat := fun _ _ h => (mistyped_of_expecting h).plain

/-- Reading a built-in scalar fails for its kind only. -/
theorem flat_scalar [Scalar S] [LawfulScalar S] : (Scalar.codec : Codec S).Flat :=
  fun raw e h => (LawfulScalar.mistyped raw e h).plain

theorem flat_string : string.Flat := flat_scalar

theorem flat_int (t : IntType) : (int t).Flat := flat_scalar (S := IntOf t)

theorem flat_float64 : float64.Flat := flat_scalar (S := Double)

theorem flat_float32 : float32.Flat := flat_scalar (S := Single)

theorem flat_duration : duration.Flat := by
  intro raw e h
  rcases Traced.result_bind_eq_error.1 h with h | ⟨text, -, h⟩
  · exact (mistyped_of_expecting h).plain
  · rw [Traced.result_ofExcept, Duration.parse] at h
    split at h <;> cases h
    trivial

theorem Flat.imap {codec : Codec α} (h : codec.Flat) (wrap : α → β) (unwrap : β → α) :
    (codec.imap wrap unwrap).Flat := by
  intro raw e he
  rcases Traced.result_bind_eq_error.1 he with he | ⟨value, -, ⟨⟩⟩
  exact h raw e he

end Codec

theorem Domain.flat_codec [Scalar S] (domain : Domain S) (h : (Scalar.codec : Codec S).Flat) :
    domain.codec.Flat := by
  intro raw e he
  rcases decode_eq_error.1 he with he | ⟨-, rfl⟩
  · exact h raw e he
  · trivial

/-! ## Making codecs -/

inductive Codec.Made : {α : Type} → Codec α → Prop
  | any : Made any
  | string : Made string
  | bool : Made bool
  | int (t : IntType) : Made (int t)
  | float64 : Made float64
  | float32 : Made float32
  | duration : Made duration
  | enum {S α : Type} [Scalar S] (domain : Domain S) {wrap : S → α} {unwrap : α → S} :
      (∀ scalar, unwrap (wrap scalar) = scalar) → (Scalar.codec : Codec S).Faithful →
      (Scalar.codec : Codec S).Flat → Made (domain.codec.imap wrap unwrap)
  | list {α : Type} {codec : Codec α} : Made codec → Made (list codec)
  | record {α : Type} {codec : Codec α} : Made codec → Made (record codec)
  | shape {T : Type} [Inhabited T] {shape : Shape T} : shape.Uniform →
      (∀ field ∈ shape.fields, ∀ ⦃F : Type⦄ (codec : Codec F), field.2.Uses codec → Made codec) → Made shape.codec
  | closedUnion {U : Type} [Tagged U] {union : ClosedUnion U} :
      (∀ case ∈ union.cases, case.2.Coherent case.1 ∧ case.2.codec.Objects union.key) →
      (∀ case ∈ union.cases, Made case.2.codec) → Made union.codec
  | openUnion {U : Type} [Tagged U] {union : OpenUnion U} :
      (∀ candidate ∈ union.candidates, candidate.2.Coherent candidate.1) →
      (∀ candidate ∈ union.candidates, Made candidate.2.codec) → Made union.codec

attribute [simp] Codec.Made.any Codec.Made.string Codec.Made.bool Codec.Made.int Codec.Made.float64
  Codec.Made.float32 Codec.Made.duration Codec.Made.list Codec.Made.record

/-! ## Fields -/

/-- The codec that the field uses is made. -/
def Access.Made (access : Access T) : Prop := ∀ ⦃F : Type⦄ (codec : Codec F), access.Uses codec → codec.Made

namespace Access

@[simp] theorem made_required {lens : Lens T F} {codec : Codec F} : (required lens codec).Made ↔ codec.Made :=
  forall_uses_required

@[simp] theorem made_optional {lens : Lens T (Option F)} {codec : Codec F} :
    (optional lens codec).Made ↔ codec.Made :=
  forall_uses_optional

@[simp] theorem made_nullable {lens : Lens T (Presence F)} {codec : Codec F} :
    (nullable lens codec).Made ↔ codec.Made :=
  forall_uses_nullable

@[simp] theorem made_constant {literal : Json} : (constant literal : Access T).Made := forall_uses_constant

end Access

/-- The codec of a shape whose fields are made. -/
theorem Shape.made_codec [Inhabited T] {shape : Shape T} (uniform : shape.Uniform)
    (h : ∀ field ∈ shape.fields, field.2.Made) : shape.codec.Made :=
  .shape uniform h

end JsonWire
