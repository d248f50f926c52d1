/-
  JsonWire.Domain — scalars with a declared set of members.

  On the wire a member is the bare scalar. A lenient domain lets any scalar of the base
  type pass, a strict one only its members: whether a scalar is one is asked after it
  has been read, so literals compare as values of the type, while a refusal shows the
  document as it was.
-/

import JsonWire.Codec.Numbers

namespace JsonWire

inductive ScalarKind where
  | string
  | number
  deriving DecidableEq

/-- A type that domains can be declared over. -/
class Scalar (S : Type) extends Alike S where
  kind : ScalarKind
  codec : Codec S

instance : Scalar String := ⟨.string, .string⟩
instance {t : IntType} : Scalar (IntOf t) := ⟨.number, .int t⟩
instance : Scalar Double := ⟨.number, .float64⟩
instance : Scalar Single := ⟨.number, .float32⟩

inductive Membership where
  | lenient
  | strict
  deriving DecidableEq

structure Domain (S : Type) where
  name : String
  literals : List S
  membership : Membership := .lenient

namespace Domain

variable {S : Type} [Scalar S]

def kind (_domain : Domain S) : ScalarKind := Scalar.kind S

def contains (domain : Domain S) (scalar : S) : Bool := domain.literals.any (alike · scalar)

def admits (domain : Domain S) (scalar : S) : Bool :=
  domain.membership = .lenient || domain.contains scalar

def encode (_domain : Domain S) (scalar : S) : Traced Json := Scalar.codec.encode scalar

def decode (domain : Domain S) (raw : Json) : Traced S := do
  let scalar ← Scalar.codec.decode raw
  if domain.admits scalar then return scalar
  else .fail (.notInDomain domain.name raw)

def codec (domain : Domain S) : Codec S := ⟨domain.encode, domain.decode⟩

end Domain

end JsonWire
