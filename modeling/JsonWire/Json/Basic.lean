/-
  JsonWire.Json.Basic — JSON values.

  A number is a whole number that fits 64 bits, signed or unsigned, or a finite double;
  the two never same as alike. Objects list their members in order. A value is
  `WellFormed` when no object in it has a key twice; a document read from text is, and
  so is every encoding.
-/

import JsonWire.Entries
import JsonWire.Float.Binary

namespace JsonWire

inductive Number where
  | int (value : Int) (fits : -2 ^ 63 ≤ value ∧ value < 2 ^ 64)
  | float (value : Double) (finite : value.isFinite = true)
  deriving DecidableEq

/-- Whole numbers and doubles are kept apart: `1` is unlike `1.0`. -/
instance : Alike Number where
  alike
    | .int a _, .int b _ => a == b
    | .float a _, .float b _ => alike a b
    | _, _ => false

inductive Json where
  | null
  | bool (value : Bool)
  | num (value : Number)
  | str (value : String)
  | arr (items : List Json)
  | obj (members : List (String × Json))

namespace Json

instance : Inhabited Json := ⟨.null⟩

inductive Kind where
  | null
  | boolean
  | number
  | string
  | array
  | object
  deriving DecidableEq

def Kind.name : Kind → String
  | .null => "null"
  | .boolean => "boolean"
  | .number => "number"
  | .string => "string"
  | .array => "array"
  | .object => "object"

def kind : Json → Kind
  | .null => .null
  | .bool _ => .boolean
  | .num _ => .number
  | .str _ => .string
  | .arr _ => .array
  | .obj _ => .object

def isNull : Json → Bool
  | .null => true
  | _ => false

def string? : Json → Option String
  | .str text => some text
  | _ => none

def bool? : Json → Option Bool
  | .bool b => some b
  | _ => none

/-- The whole number as a value, where it fits 64 bits. -/
def ofInt? (n : Int) : Option Json :=
  if h : -2 ^ 63 ≤ n ∧ n < 2 ^ 64 then some (.num (.int n h)) else none

/-- The double as a value, where it is finite. -/
def ofDouble? (x : Double) : Option Json :=
  if h : x.isFinite = true then some (.num (.float x h)) else none

mutual

/-- Comparison of values. Items same in order, members by key. -/
def same : Json → Json → Bool
  | .null, .null => true
  | .bool a, .bool b => a == b
  | .num a, .num b => alike a b
  | .str a, .str b => a == b
  | .arr as, .arr bs => sameItems as bs
  | .obj as, .obj bs => as.length == bs.length && sameMembers as bs
  | _, _ => false

def sameItems : List Json → List Json → Bool
  | [], [] => true
  | a :: as, b :: bs => a.same b && sameItems as bs
  | _, _ => false

/-- Each of the first members has its like among the second. -/
def sameMembers : List (String × Json) → List (String × Json) → Bool
  | [], _ => true
  | (key, a) :: rest, others =>
    (match others.lookup key with
      | some b => a.same b
      | none => false) && sameMembers rest others

end

instance : Alike Json := ⟨same⟩

mutual

/-- No object in the value has a key twice. -/
def WellFormed : Json → Prop
  | .arr items => WellFormedItems items
  | .obj members => (Entries.keys members).Nodup ∧ WellFormedMembers members
  | _ => True

def WellFormedItems : List Json → Prop
  | [] => True
  | item :: rest => item.WellFormed ∧ WellFormedItems rest

def WellFormedMembers : List (String × Json) → Prop
  | [] => True
  | (_, value) :: rest => value.WellFormed ∧ WellFormedMembers rest

end

end Json

end JsonWire
