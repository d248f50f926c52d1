/-
  JsonWire.Proofs.Guarded — operations that are used unchecked, under guard.

  Sums, differences and products of words, quotients, logarithms and the cutting of a text
  at a byte have an answer at some arguments only; at the others a `Fault` says what is
  wrong. What a guarded sum, difference or product of words answers is the exact number
  (`Exact`): there is a result if a word holds that number, and no other result. A quotient
  always fits (`exists_div`). So a run of guarded operations that ends without a fault has
  computed with exact numbers.

  A text is cut at a number of bytes, which must be where one of its characters begins or at
  its end (`split_eq_ok_iff`, `exists_split_iff`). Two ways to find such a place are right for
  every text: counting the bytes that are digits (`split_leadingDigits`), as no byte of a
  longer character is one, and looking for a character (`split_offset`).
-/

import JsonWire.Text.Digits
import Mathlib.Data.Nat.Log

namespace JsonWire

/-- What is wrong where an operation has no answer. -/
inductive Fault where
  /-- A number that its word does not hold. -/
  | overflow
  /-- A quotient by zero, or the logarithm of zero. -/
  | zero
  /-- A place in a text within a character or behind the end. -/
  | offBoundary
  /-- A round of a loop that leaves no less to do. -/
  | standstill
  /-- Nanoseconds of a full second. -/
  | carry

/-- A run that ends at its first fault. -/
abbrev Guarded (α : Type) := Except Fault α

namespace Guarded

theorem ok_bind {α β : Type} (a : α) (next : α → Guarded β) : (Except.ok a : Guarded α) >>= next = next a := rfl

/-! ## Words -/

section Words

variable {w : Nat} {a b : BitVec w} {x : Guarded (BitVec w)} {n : Nat}

def add (a b : BitVec w) : Guarded (BitVec w) := if a.uaddOverflow b then .error .overflow else .ok (a + b)

def sub (a b : BitVec w) : Guarded (BitVec w) := if a.usubOverflow b then .error .overflow else .ok (a - b)

def mul (a b : BitVec w) : Guarded (BitVec w) := if a.umulOverflow b then .error .overflow else .ok (a * b)

def div (a b : BitVec w) : Guarded (BitVec w) := if b = 0 then .error .zero else .ok (a / b)

def rem (a b : BitVec w) : Guarded (BitVec w) := if b = 0 then .error .zero else .ok (a % b)

/-- The whole part of the decimal logarithm. -/
def log10 (a : BitVec w) : Guarded Nat := if a = 0 then .error .zero else .ok (Nat.log 10 a.toNat)

/-- The run ends with the number, or with a fault if no word holds it. -/
def Exact (x : Guarded (BitVec w)) (n : Nat) : Prop := ∀ c, x = .ok c ↔ c.toNat = n

theorem Exact.exists_ok (h : Exact x n) (hfits : n < 2 ^ w) : ∃ c, x = .ok c ∧ c.toNat = n :=
  ⟨BitVec.ofNatLT n hfits, (h _).2 rfl, rfl⟩

theorem exact_ok (h : a.toNat = n) : Exact (.ok a) n := by
  intro c
  rw [Except.ok.injEq, ← h, eq_comm, BitVec.toNat_inj]

theorem exact_error {fault : Fault} (h : 2 ^ w ≤ n) : Exact (.error fault : Guarded (BitVec w)) n := by
  intro c
  have hlt := c.isLt
  constructor
  · intro hc
    cases hc
  · intro hc
    omega

theorem exact_add (a b : BitVec w) : Exact (add a b) (a.toNat + b.toNat) := by
  unfold add
  split
  · rename_i hover
    exact exact_error (of_decide_eq_true hover)
  · rename_i hfits
    exact exact_ok (BitVec.toNat_add_of_not_uaddOverflow hfits)

theorem exact_mul (a b : BitVec w) : Exact (mul a b) (a.toNat * b.toNat) := by
  unfold mul
  split
  · rename_i hover
    exact exact_error (of_decide_eq_true hover)
  · rename_i hfits
    exact exact_ok (BitVec.toNat_mul_of_not_umulOverflow hfits)

theorem exact_sub (h : b.toNat ≤ a.toNat) : Exact (sub a b) (a.toNat - b.toNat) := by
  have hfits : ¬ a.usubOverflow b = true := by
    rw [BitVec.usubOverflow, decide_eq_true_eq]
    omega
  rw [sub, if_neg hfits]
  exact exact_ok (BitVec.toNat_sub_of_not_usubOverflow hfits)

theorem exists_div (h : b ≠ 0) : ∃ c, div a b = .ok c ∧ c.toNat = a.toNat / b.toNat :=
  ⟨a / b, if_neg h, BitVec.toNat_udiv⟩

theorem exists_rem (h : b ≠ 0) : ∃ c, rem a b = .ok c ∧ c.toNat = a.toNat % b.toNat :=
  ⟨a % b, if_neg h, BitVec.toNat_umod⟩

theorem ne_zero_of_toNat_pos (h : 0 < a.toNat) : a ≠ 0 := by
  rintro rfl
  exact absurd h (Nat.lt_irrefl 0)

theorem log10_of_toNat_eq {places : Nat} (h : a.toNat = 10 ^ places) : log10 a = .ok places := by
  have hpos : 0 < a.toNat := h ▸ Nat.pow_pos (by decide)
  rw [log10, if_neg (ne_zero_of_toNat_pos hpos), h, Nat.log_pow (by decide)]

end Words

/-! ## Texts -/

/-- The bytes of a text. -/
def bytes (s : List Char) : List UInt8 := s.flatMap String.utf8EncodeChar

theorem bytes_cons (c : Char) (s : List Char) : bytes (c :: s) = String.utf8EncodeChar c ++ bytes s :=
  List.flatMap_cons

theorem bytes_append (s t : List Char) : bytes (s ++ t) = bytes s ++ bytes t := List.flatMap_append

theorem length_bytes_cons (c : Char) (s : List Char) : (bytes (c :: s)).length = c.utf8Size + (bytes s).length := by
  rw [bytes_cons, List.length_append, String.length_utf8EncodeChar]

theorem rawEndPos_ofList (s : List Char) : (String.ofList s).rawEndPos = ⟨(bytes s).length⟩ := by
  have hsize : (String.ofList s).toByteArray.size = (bytes s).length := by
    rw [String.toByteArray_ofList, List.utf8Encode]
    simp [bytes]
  rw [← hsize]
  rfl

/-- Cuts a text behind so many of its bytes. -/
def split : List Char → Nat → Guarded (List Char × List Char)
  | s, 0 => .ok ([], s)
  | [], _ + 1 => .error .offBoundary
  | c :: s, n + 1 =>
    if c.utf8Size ≤ n + 1 then do
      let (before, after) ← split s (n + 1 - c.utf8Size)
      return (c :: before, after)
    else .error .offBoundary

theorem split_append (before after : List Char) :
    split (before ++ after) (bytes before).length = .ok (before, after) := by
  induction before with
  | nil =>
    cases after <;> rfl
  | cons c before ih =>
    have hpos := c.utf8Size_pos
    have hlength := length_bytes_cons c before
    obtain ⟨n, hn⟩ : ∃ n, (bytes (c :: before)).length = n + 1 := Nat.exists_eq_succ_of_ne_zero (by omega)
    have hrest : n + 1 - c.utf8Size = (bytes before).length := by omega
    rw [hn, List.cons_append, split, if_pos (by omega), hrest, ih]
    rfl

/-- The parts are the text, and the first has the bytes. -/
theorem split_eq_ok_iff {s before after : List Char} {n : Nat} :
    split s n = .ok (before, after) ↔ s = before ++ after ∧ (bytes before).length = n := by
  constructor
  · intro h
    fun_induction split s n generalizing before with
    | case1 s =>
      cases h
      exact ⟨rfl, rfl⟩
    | case2 n => cases h
    | case3 c s n hle ih =>
      cases hsplit : split s (n + 1 - c.utf8Size) with
      | error fault =>
        rw [hsplit] at h
        cases h
      | ok parts =>
        rw [hsplit] at h
        cases h
        obtain ⟨hparts, hlength⟩ := ih hsplit
        rw [length_bytes_cons, hlength]
        exact ⟨congrArg (c :: ·) hparts, by omega⟩
    | case4 c s n hgt => cases h
  · rintro ⟨rfl, rfl⟩
    exact split_append before after

/-- A text is cut exactly at the places that are valid in it. -/
theorem exists_split_iff {s : List Char} {n : Nat} :
    (∃ parts, split s n = .ok parts) ↔ String.Pos.Raw.IsValid (String.ofList s) ⟨n⟩ := by
  rw [String.Pos.Raw.isValid_iff_exists_append]
  constructor
  · rintro ⟨⟨before, after⟩, h⟩
    obtain ⟨rfl, rfl⟩ := split_eq_ok_iff.1 h
    exact ⟨String.ofList before, String.ofList after, String.ofList_append, (rawEndPos_ofList before).symm⟩
  · rintro ⟨before, after, hs, hn⟩
    refine ⟨(before.toList, after.toList), split_eq_ok_iff.2 ⟨?_, ?_⟩⟩
    · rw [← String.toList_append, ← hs, String.toList_ofList]
    · rw [← String.ofList_toList (s := before), rawEndPos_ofList] at hn
      exact (String.Pos.Raw.mk.inj hn).symm

/-! ## Places -/

def isDigitByte (byte : UInt8) : Bool := 48 ≤ byte.toNat && byte.toNat ≤ 57

/-- How many bytes at the head of a text are digits. -/
def leadingDigits (s : List Char) : Nat := ((bytes s).takeWhile isDigitByte).length

/-- Where the first such character of a text begins, or its end. -/
def offset (p : Char → Bool) : List Char → Nat
  | [] => 0
  | c :: s => if p c then 0 else c.utf8Size + offset p s

theorem isDigitByte_ofNat {n : Nat} : isDigitByte (UInt8.ofNat n) = true ↔ 48 ≤ n % 256 ∧ n % 256 ≤ 57 := by
  simp [isDigitByte]

theorem utf8EncodeChar_of_isDigit {c : Char} (h : c.isDigit = true) :
    String.utf8EncodeChar c = [UInt8.ofNat c.toNat] := by
  have hhigh := (Text.isDigit_iff.1 h).2
  have hascii : c.val.toNat ≤ 127 := Nat.le_trans hhigh (by decide)
  rw [String.utf8EncodeChar]
  exact if_pos hascii

/-- The first byte of a character that is no digit is none either: of more than one byte it is above them all. -/
theorem exists_byte_of_not_isDigit {c : Char} (h : ¬ c.isDigit = true) :
    ∃ byte rest, String.utf8EncodeChar c = byte :: rest ∧ ¬ isDigitByte byte = true := by
  have hnot : ¬ (48 ≤ c.val.toNat ∧ c.val.toNat ≤ 57) := fun hdigit => h (Text.isDigit_iff.2 hdigit)
  rw [String.utf8EncodeChar]
  repeat' split
  all_goals
    refine ⟨_, _, rfl, ?_⟩
    rw [isDigitByte_ofNat]
    omega

theorem bytes_of_digits {digits : List Char} (h : ∀ c ∈ digits, c.isDigit = true) :
    bytes digits = digits.map fun c => UInt8.ofNat c.toNat := by
  induction digits with
  | nil => rfl
  | cons c digits ih =>
    obtain ⟨hc, hrest⟩ := List.forall_mem_cons.1 h
    rw [bytes_cons, utf8EncodeChar_of_isDigit hc, ih hrest]
    rfl

/-- Counting the bytes that are digits stops where a character begins. -/
theorem takeWhile_bytes (s : List Char) : (bytes s).takeWhile isDigitByte = bytes (s.takeWhile Char.isDigit) := by
  induction s with
  | nil => rfl
  | cons c s ih =>
    rw [bytes_cons]
    by_cases hc : c.isDigit = true
    · have hbyte : isDigitByte (UInt8.ofNat c.toNat) = true := by
        rw [isDigitByte_ofNat]
        have hdigit := Text.isDigit_iff.1 hc
        omega
      rw [List.takeWhile_cons_of_pos hc, bytes_cons, utf8EncodeChar_of_isDigit hc, List.singleton_append,
        List.takeWhile_cons_of_pos hbyte, ih, List.singleton_append]
    · obtain ⟨byte, rest, hencode, hbyte⟩ := exists_byte_of_not_isDigit hc
      rw [List.takeWhile_cons_of_neg hc, hencode, List.cons_append, List.takeWhile_cons_of_neg hbyte]
      rfl

theorem split_leadingDigits (s : List Char) : split s (leadingDigits s) = .ok (Text.spanDigits s) := by
  rw [leadingDigits, takeWhile_bytes]
  exact split_eq_ok_iff.2 ⟨(Text.spanDigits_append s).symm, rfl⟩

theorem split_offset (p : Char → Bool) (s : List Char) :
    split s (offset p s) = .ok (s.takeWhile (!p ·), s.dropWhile (!p ·)) := by
  refine split_eq_ok_iff.2 ⟨List.takeWhile_append_dropWhile.symm, ?_⟩
  induction s with
  | nil => rfl
  | cons c s ih =>
    cases hc : p c
    · simp [offset, hc, length_bytes_cons, ih]
    · simp [offset, hc, bytes]

end Guarded

end JsonWire
