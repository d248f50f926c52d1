/-
  JsonWire.Json.Token — the lexemes of a JSON text.

  `Token.scan?` splits a text into tokens, or refuses it. White space is the four
  characters of JSON and no others. A number without fraction and exponent that fits 64
  bits is a whole number, `-0` excepted, which is the negative zero of a double; any
  other number is the nearest double, and one beyond the doubles is refused. A string
  may not hold a raw control character, and an escaped surrogate needs its partner.

  Scanning ends because a lexeme leaves a shorter text (`lexeme?_length_le`).
-/

import JsonWire.Float.Rounding
import JsonWire.Json.Basic
import JsonWire.Text.Digits

namespace JsonWire.Json

inductive Token where
  | openArray
  | closeArray
  | openObject
  | closeObject
  | comma
  | colon
  | scalar (value : Json)
  | text (value : String)

namespace Token

open Text

def isBlank (c : Char) : Bool := c = ' ' || c = '\t' || c = '\n' || c = '\r'

/-! ## Numbers -/

/-- A run of at least one digit. -/
def someDigits? (s : List Char) : Option (List Char × List Char) :=
  match spanDigits s with
  | ([], _) => none
  | run => some run

/-- The whole part: no zero stands before another digit. -/
def wholePart? (s : List Char) : Option (List Char × List Char) :=
  match s with
  | '0' :: rest => some (['0'], rest)
  | _ => someDigits? s

/-- The fraction digits, none when there is no point. -/
def fractionPart? (s : List Char) : Option (Option (List Char) × List Char) :=
  match s with
  | '.' :: rest => (someDigits? rest).map fun (run, rest) => (some run, rest)
  | _ => some (none, s)

def exponentPart? (s : List Char) : Option (Option Int × List Char) :=
  match s with
  | [] => some (none, [])
  | mark :: rest =>
    if mark = 'e' || mark = 'E' then
      match rest with
      | '-' :: rest => (someDigits? rest).map fun (run, rest) => (some (-(digitsValue run : Int)), rest)
      | '+' :: rest => (someDigits? rest).map fun (run, rest) => (some (digitsValue run : Int), rest)
      | _ => (someDigits? rest).map fun (run, rest) => (some (digitsValue run : Int), rest)
    else some (none, s)

/-- The value of a number literal from its parts. -/
def number? (negative : Bool) (whole : List Char) (fraction : Option (List Char))
    (exponent : Option Int) : Option Json :=
  let decimal (fraction : List Char) (exponent : Int) :=
    ofDouble? (.ofDecimal negative (digitsValue (whole ++ fraction)) (exponent - fraction.length))
  match fraction, exponent with
  | none, none =>
    let n := digitsValue whole
    if negative && n = 0 then decimal [] 0
    else (ofInt? (if negative then -n else n)).or (decimal [] 0)
  | fraction, exponent => decimal (fraction.getD []) (exponent.getD 0)

def unsigned? (negative : Bool) (s : List Char) : Option (Token × List Char) := do
  let (whole, s) ← wholePart? s
  let (fraction, s) ← fractionPart? s
  let (exponent, s) ← exponentPart? s
  let value ← number? negative whole fraction exponent
  return (.scalar value, s)

/-! ## Strings -/

/-- A character of a string, or a sixteen-bit unit written as an escape. -/
inductive Piece where
  | char (c : Char)
  | unit (code : Nat)

def hexDigit? (c : Char) : Option Nat :=
  if '0' ≤ c && c ≤ '9' then some (c.toNat - '0'.toNat)
  else if 'a' ≤ c && c ≤ 'f' then some (c.toNat - 'a'.toNat + 10)
  else if 'A' ≤ c && c ≤ 'F' then some (c.toNat - 'A'.toNat + 10)
  else none

def hexUnit? (a b c d : Char) : Option Nat := do
  let a ← hexDigit? a
  let b ← hexDigit? b
  let c ← hexDigit? c
  let d ← hexDigit? d
  return ((a * 16 + b) * 16 + c) * 16 + d

def shortEscape? : Char → Option Char
  | '"' => some '"'
  | '\\' => some '\\'
  | '/' => some '/'
  | 'b' => some '\x08'
  | 'f' => some '\x0c'
  | 'n' => some '\n'
  | 'r' => some '\r'
  | 't' => some '\t'
  | _ => none

/-- The pieces of a string up to its closing quote, and what follows the quote. -/
def pieces? : List Char → Option (List Piece × List Char)
  | [] => none
  | '"' :: rest => some ([], rest)
  | '\\' :: 'u' :: a :: b :: c :: d :: rest => do
    let code ← hexUnit? a b c d
    let (more, rest) ← pieces? rest
    return (.unit code :: more, rest)
  | '\\' :: e :: rest => do
    let c ← shortEscape? e
    let (more, rest) ← pieces? rest
    return (.char c :: more, rest)
  | c :: rest =>
    if c.toNat < 0x20 || c = '\\' then none
    else do
      let (more, rest) ← pieces? rest
      return (.char c :: more, rest)

def isHighSurrogate (code : Nat) : Bool := 0xD800 ≤ code && code < 0xDC00

def isLowSurrogate (code : Nat) : Bool := 0xDC00 ≤ code && code < 0xE000

/-- The characters of the pieces. Two units make one character where the first is a high
surrogate and the second a low one; a surrogate without its partner makes none. -/
def joinPieces? : List Piece → Option (List Char)
  | [] => some []
  | .char c :: rest => (joinPieces? rest).map (c :: ·)
  | .unit high :: .unit low :: rest =>
    if isHighSurrogate high && isLowSurrogate low then
      (joinPieces? rest).map (.ofNat (0x10000 + (high - 0xD800) * 0x400 + (low - 0xDC00)) :: ·)
    else if isHighSurrogate high || isLowSurrogate high then none
    else (joinPieces? (.unit low :: rest)).map (.ofNat high :: ·)
  | .unit code :: rest =>
    if isHighSurrogate code || isLowSurrogate code then none
    else (joinPieces? rest).map (.ofNat code :: ·)

def stringBody? (s : List Char) : Option (Token × List Char) := do
  let (pieces, rest) ← pieces? s
  let chars ← joinPieces? pieces
  return (.text (String.ofList chars), rest)

/-! ## All lexemes -/

/-- The lexeme that starts with `c`, and the text after it. -/
def lexeme? (c : Char) (rest : List Char) : Option (Token × List Char) :=
  match c, rest with
  | '[', _ => some (.openArray, rest)
  | ']', _ => some (.closeArray, rest)
  | '{', _ => some (.openObject, rest)
  | '}', _ => some (.closeObject, rest)
  | ',', _ => some (.comma, rest)
  | ':', _ => some (.colon, rest)
  | '"', _ => stringBody? rest
  | '-', _ => unsigned? true rest
  | 'n', 'u' :: 'l' :: 'l' :: rest => some (.scalar .null, rest)
  | 't', 'r' :: 'u' :: 'e' :: rest => some (.scalar (.bool true), rest)
  | 'f', 'a' :: 'l' :: 's' :: 'e' :: rest => some (.scalar (.bool false), rest)
  | c, _ => if c.isDigit then unsigned? false (c :: rest) else none

/-! ## A lexeme leaves a shorter text -/

theorem someDigits?_length_lt {s run rest : List Char} (h : someDigits? s = some (run, rest)) :
    rest.length < s.length := by
  have whole := length_spanDigits s
  unfold someDigits? at h
  split at h
  · cases h
  · rename_i nonempty
    have split_eq := Option.some.inj h
    have := List.length_pos_iff.2 fun empty : run = [] => nonempty rest (by rw [split_eq, empty])
    rw [split_eq] at whole
    dsimp only at whole
    omega

theorem wholePart?_length_lt {s whole rest : List Char} (h : wholePart? s = some (whole, rest)) :
    rest.length < s.length := by
  unfold wholePart? at h
  split at h
  · cases h; simp
  · exact someDigits?_length_lt h

theorem fractionPart?_length_le {s rest : List Char} {fraction : Option (List Char)}
    (h : fractionPart? s = some (fraction, rest)) : rest.length ≤ s.length := by
  unfold fractionPart? at h
  split at h
  · obtain ⟨⟨run, rest'⟩, hrun, e⟩ := Option.map_eq_some_iff.1 h
    cases e
    have := someDigits?_length_lt hrun
    simp only [List.length_cons]
    omega
  · cases h; exact Nat.le_refl _

theorem exponentPart?_length_le {s rest : List Char} {exponent : Option Int}
    (h : exponentPart? s = some (exponent, rest)) : rest.length ≤ s.length := by
  unfold exponentPart? at h
  split at h
  · cases h; exact Nat.le_refl _
  · split at h
    · split at h <;>
      · obtain ⟨⟨run, rest'⟩, hrun, e⟩ := Option.map_eq_some_iff.1 h
        cases e
        have := someDigits?_length_lt hrun
        simp only [List.length_cons] at *
        omega
    · cases h; exact Nat.le_refl _

theorem unsigned?_length_lt {negative : Bool} {s rest : List Char} {token : Token}
    (h : unsigned? negative s = some (token, rest)) : rest.length < s.length := by
  simp only [unsigned?, bind, Option.bind_eq_some_iff] at h
  obtain ⟨⟨_, a⟩, ha, ⟨_, b⟩, hb, ⟨_, c⟩, hc, _, _, e⟩ := h
  cases e
  exact Nat.lt_of_le_of_lt (exponentPart?_length_le hc)
    (Nat.lt_of_le_of_lt (fractionPart?_length_le hb) (wholePart?_length_lt ha))

theorem pieces?_length_le {s rest : List Char} {pieces : List Piece}
    (h : pieces? s = some (pieces, rest)) : rest.length ≤ s.length := by
  fun_induction pieces? s generalizing pieces with
  | case1 => cases h
  | case2 => cases h; simp
  | case3 a b c d tail ih =>
    simp only [bind, Option.bind_eq_some_iff] at h
    obtain ⟨_, _, ⟨_, _⟩, more, e⟩ := h
    cases e
    exact Nat.le_trans (ih more) (by simp only [List.length_cons]; omega)
  | case4 e tail _ ih =>
    simp only [bind, Option.bind_eq_some_iff] at h
    obtain ⟨_, _, ⟨_, _⟩, more, e⟩ := h
    cases e
    exact Nat.le_trans (ih more) (by simp only [List.length_cons]; omega)
  | case5 => cases h
  | case6 c tail _ _ _ _ ih =>
    simp only [bind, Option.bind_eq_some_iff] at h
    obtain ⟨⟨_, _⟩, more, e⟩ := h
    cases e
    exact Nat.le_trans (ih more) (by simp only [List.length_cons]; omega)

theorem lexeme?_length_le {c : Char} {s rest : List Char} {token : Token}
    (h : lexeme? c s = some (token, rest)) : rest.length ≤ s.length := by
  unfold lexeme? at h
  split at h
  case h_7 =>
    simp only [stringBody?, bind, Option.bind_eq_some_iff] at h
    obtain ⟨⟨_, _⟩, body, _, _, e⟩ := h
    cases e
    exact pieces?_length_le body
  case h_8 => exact Nat.le_of_lt (unsigned?_length_lt h)
  case h_12 =>
    split at h
    · exact Nat.le_of_lt_succ (unsigned?_length_lt h)
    · cases h
  case h_9 | h_10 | h_11 =>
    cases h
    simp only [List.length_cons]
    omega
  all_goals
    cases h
    exact Nat.le_refl _

/-- The tokens of a text, white space left out. -/
def scan? (s : List Char) : Option (List Token) :=
  match s with
  | [] => some []
  | c :: rest =>
    if isBlank c then scan? rest
    else
      match found : lexeme? c rest with
      | none => none
      | some (token, after) =>
        have := lexeme?_length_le found
        (scan? after).map (token :: ·)
termination_by s.length
decreasing_by
  · exact Nat.lt_succ_self _
  · exact Nat.lt_succ_of_le this

end Token

end JsonWire.Json
