/-
  JsonWire.Sample.Blueprint — shapes over sheets, written down as data.

  A blueprint lists declarations by slot instead of by place. Its shape at level `n` has
  fields in the outermost sheet, and a parent is the shape of its own blueprint one
  level down. Level zero has no sheet below, so there a parent lies where the child
  does.
-/

import JsonWire.Sample.Sheet
import JsonWire.Shape.Declaration

namespace JsonWire.Sample

mutual

inductive Blueprint where
  | mk (name : String) (nullPolicy : NullPolicy) (steps : List BlueprintStep)

inductive BlueprintStep where
  | field (name : String) (slot : Slot)
  | constant (name : String) (literal : Json)
  | inherits (parent : Blueprint)

end

mutual

def Blueprint.shape (level : Nat) : Blueprint → Shape (Layered level)
  | .mk name policy steps => .build name (.nulls policy :: declarations level steps)

def declarations (level : Nat) : List BlueprintStep → List (Declaration (Layered level))
  | [] => []
  | step :: rest => step.declaration level :: declarations level rest

def BlueprintStep.declaration (level : Nat) : BlueprintStep → Declaration (Layered level)
  | .field name slot => .field name (slot.access ((Layered.own level).comp (Sheet.lens slot)))
  | .constant name literal => .constant name literal
  | .inherits parent =>
    match level with
    | 0 => .inherits (parent.shape 0) Lens.id
    | below + 1 => .inherits (parent.shape below) (Layered.base below)

end

end JsonWire.Sample
