/-
  JsonWire.Alike — equality as a program compares values.

  It differs from `=` where a comparison is not identity: a NaN is unlike itself, the
  two zeros are alike, and objects compare without regard to the order of their
  members. So it is a class of its own beside `DecidableEq` and `BEq`.
-/

namespace JsonWire

class Alike (α : Type) where
  alike : α → α → Bool

export Alike (alike)

namespace Alike

/-- Identity, for types where comparing is no more than that. -/
@[reducible] def ofDecidableEq {α : Type} [DecidableEq α] : Alike α := ⟨fun a b => decide (a = b)⟩

def options {α : Type} (same : α → α → Bool) : Option α → Option α → Bool
  | none, none => true
  | some a, some b => same a b
  | _, _ => false

/-- Equally long, and alike place by place. -/
def lists {α : Type} (same : α → α → Bool) : List α → List α → Bool
  | [], [] => true
  | a :: as, b :: bs => same a b && lists same as bs
  | _, _ => false

end Alike

instance : Alike Bool := Alike.ofDecidableEq
instance : Alike String := Alike.ofDecidableEq
instance {α : Type} [Alike α] : Alike (Option α) := ⟨Alike.options alike⟩
instance {α : Type} [Alike α] : Alike (List α) := ⟨Alike.lists alike⟩

end JsonWire
