/-
  JsonWire.Duration.Text — the written form of a duration.

  Below a second one decimal in the largest unit that leaves a whole part; from a
  second on hours, minutes and seconds, of which hours and minutes are left out while
  all before them is. Only the last number has a fraction, and no fraction ends in a
  zero.
-/

import JsonWire.Codec.Basic
import JsonWire.Duration.Term

namespace JsonWire

namespace Duration

/-- The digits of `n / 10 ^ places` after the point, up to the last that is not zero. -/
def fractionDigits : Nat → Nat → List Char
  | 0, _ => []
  | places + 1, n =>
    if n = 0 then []
    else Nat.digitChar (n / 10 ^ places) :: fractionDigits places (n % 10 ^ places)

/-- `n / 10 ^ places` as a decimal. -/
def decimal (n places : Nat) : List Char :=
  let whole := Nat.toDigits 10 (n / 10 ^ places)
  match fractionDigits places (n % 10 ^ places) with
  | [] => whole
  | fraction => whole ++ '.' :: fraction

/-- A whole number of a unit. -/
def count (n : Nat) (unit : TimeUnit) : List Char := Nat.toDigits 10 n ++ unit.symbol

/-- The characters of the written form. -/
def chars (d : Duration) : List Char :=
  let n := d.nanos
  if n = 0 then ['0', 's']
  else if n < 10 ^ 3 then decimal n 0 ++ TimeUnit.nanosecond.symbol
  else if n < 10 ^ 6 then decimal n 3 ++ TimeUnit.microsecond.symbol
  else if n < 10 ^ 9 then decimal n 6 ++ TimeUnit.millisecond.symbol
  else
    let hours := n / TimeUnit.hour.nanos
    let minutes := n % TimeUnit.hour.nanos / TimeUnit.minute.nanos
    let rest := n % TimeUnit.minute.nanos
    (if 0 < hours then count hours .hour else [])
      ++ (if 0 < hours ∨ 0 < minutes then count minutes .minute else [])
      ++ decimal rest 9 ++ TimeUnit.second.symbol

def text (d : Duration) : String := String.ofList d.chars

end Duration

/-- A duration travels as its written form and is read from any text of its grammar. -/
def Codec.duration : Codec Duration where
  encode d := pure (.str d.text)
  decode raw := do
    let text ← expecting "duration string" Json.string? raw
    .ofExcept (Duration.parse text)

end JsonWire
