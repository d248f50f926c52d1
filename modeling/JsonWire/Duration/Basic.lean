/-
  JsonWire.Duration.Basic — spans of time and their units.

  A duration is a whole number of nanoseconds whose seconds fit 64 bits. Units are
  written with ASCII letters, the microsecond also with either of the two code points
  of the micro sign.
-/

import JsonWire.Alike

namespace JsonWire

-- Powers are computed by core, also where a library brings a power of its own.
attribute [instance(2000), default_instance(20000)] instPowNat

structure Duration where
  nanos : Nat
  nanos_lt : nanos < 2 ^ 64 * 10 ^ 9
  deriving DecidableEq

namespace Duration

def zero : Duration := ⟨0, by decide⟩

instance : Inhabited Duration := ⟨zero⟩

instance : Alike Duration := Alike.ofDecidableEq

def ofNanos? (n : Nat) : Option Duration := if h : n < 2 ^ 64 * 10 ^ 9 then some ⟨n, h⟩ else none

def seconds (d : Duration) : Nat := d.nanos / 10 ^ 9

/-- Nanoseconds past the whole seconds. -/
def subsecond (d : Duration) : Nat := d.nanos % 10 ^ 9

end Duration

inductive TimeUnit where
  | nanosecond
  | microsecond
  | millisecond
  | second
  | minute
  | hour
  deriving DecidableEq

namespace TimeUnit

/-- The unit in nanoseconds. -/
def nanos : TimeUnit → Nat
  | .nanosecond => 1
  | .microsecond => 10 ^ 3
  | .millisecond => 10 ^ 6
  | .second => 10 ^ 9
  | .minute => 60 * 10 ^ 9
  | .hour => 3600 * 10 ^ 9

/-- The letters a unit is written with. -/
def symbol : TimeUnit → List Char
  | .nanosecond => ['n', 's']
  | .microsecond => ['\u00b5', 's']
  | .millisecond => ['m', 's']
  | .second => ['s']
  | .minute => ['m']
  | .hour => ['h']

/-- Every spelling that is read; U+00B5 and U+03BC both are micro signs. -/
def ofSymbol? : List Char → Option TimeUnit
  | ['n', 's'] => some .nanosecond
  | ['u', 's'] => some .microsecond
  | ['\u00b5', 's'] => some .microsecond
  | ['\u03bc', 's'] => some .microsecond
  | ['m', 's'] => some .millisecond
  | ['s'] => some .second
  | ['m'] => some .minute
  | ['h'] => some .hour
  | _ => none

theorem ofSymbol?_symbol (u : TimeUnit) : ofSymbol? u.symbol = some u := by cases u <;> rfl

end TimeUnit

end JsonWire
