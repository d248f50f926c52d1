/-
  JsonWire.Proofs.WholeNumbers — which whole numbers a type takes, and what it says of the others.

  The range of a type is what the words of its width stand for (`IsWord`), in two's
  complement if the type is signed: `holds_iff_isWord`. A document is read as a whole number
  exactly if it is that number, written as one, and a word of the type stands for it
  (`decode_int_eq_ok`). All others are refused for one of two reasons (`decode_int_eq_error`):
  - a whole number that 64 bits of the same signedness hold, but not the type, is out of
    range;
  - anything else is of the wrong kind, and a number is so called also where it is a double,
    is negative for a type without a sign, or is too large for 64 bits with one.

  So nothing wraps: what two types read from one document is the same number.
-/

import JsonWire.Proofs.Settling

namespace JsonWire

/-! ## Ranges -/

/-- A word of so many bits stands for the number, in two's complement if it is signed. -/
def IsWord (signed : Bool) (bits : Nat) (n : Int) : Prop :=
  ∃ word : BitVec bits, (if signed then word.toInt else word.toNat) = n

theorem isWord_signed_iff {bits : Nat} {n : Int} (hbits : 0 < bits) :
    IsWord true bits n ↔ -2 ^ (bits - 1) ≤ n ∧ n < 2 ^ (bits - 1) := by
  constructor
  · rintro ⟨word, rfl⟩
    exact ⟨word.le_toInt, word.toInt_lt⟩
  · rintro ⟨hlow, hhigh⟩
    exact ⟨BitVec.ofInt bits n, BitVec.toInt_ofInt_eq_self hbits hlow hhigh⟩

theorem isWord_unsigned_iff {bits : Nat} {n : Int} : IsWord false bits n ↔ 0 ≤ n ∧ n < (2 ^ bits : Nat) := by
  constructor
  · rintro ⟨word, rfl⟩
    have hlt := word.isLt
    show (0 : Int) ≤ word.toNat ∧ (word.toNat : Int) < _
    omega
  · rintro ⟨hlow, hhigh⟩
    refine ⟨BitVec.ofNat bits n.toNat, ?_⟩
    show ((BitVec.ofNat bits n.toNat).toNat : Int) = n
    rw [BitVec.toNat_ofNat, Nat.mod_eq_of_lt (by omega)]
    omega

namespace IntType

def signed : IntType → Bool
  | .int8 | .int16 | .int32 | .int64 => true
  | .uint8 | .uint16 | .uint32 | .uint64 => false

def bits : IntType → Nat
  | .int8 | .uint8 => 8
  | .int16 | .uint16 => 16
  | .int32 | .uint32 => 32
  | .int64 | .uint64 => 64

/-- The bounds of a type are those of its words. -/
theorem holds_iff_isWord {t : IntType} {n : Int} : t.Holds n ↔ IsWord t.signed t.bits n := by
  cases t <;> simp only [signed, bits, isWord_unsigned_iff, isWord_signed_iff (show 0 < 8 by decide),
    isWord_signed_iff (show 0 < 16 by decide), isWord_signed_iff (show 0 < 32 by decide),
    isWord_signed_iff (show 0 < 64 by decide), Holds, lowest, highest] <;> omega

theorem carrier_holds_iff_isWord {t : IntType} {n : Int} : t.carrier.Holds n ↔ IsWord t.signed 64 n := by
  rw [holds_iff_isWord]
  cases t <;> exact Iff.rfl

end IntType

/-! ## Reading -/

/-- The value is the number, as a whole one. -/
def Json.IsWhole (raw : Json) (n : Int) : Prop := ∃ fits, raw = .num (.int n fits)

theorem Json.IsWhole.unique {raw : Json} {n k : Int} (hn : raw.IsWhole n) (hk : raw.IsWhole k) : n = k := by
  obtain ⟨_, rfl⟩ := hn
  obtain ⟨_, hk⟩ := hk
  cases hk
  rfl

namespace Codec

variable {t : IntType} {raw : Json}

theorem wholeNumber?_eq_some_iff {n : Int} : wholeNumber? t raw = some n ↔ raw.IsWhole n ∧ t.Holds n := by
  unfold wholeNumber?
  split
  · rename_i k fits
    constructor
    · intro h
      split at h <;> cases h
      exact ⟨⟨fits, rfl⟩, by assumption⟩
    · rintro ⟨hwhole, hholds⟩
      obtain rfl := hwhole.unique ⟨fits, rfl⟩
      exact if_pos hholds
  · rename_i hother
    constructor
    · intro h
      cases h
    · rintro ⟨⟨fits, rfl⟩, -⟩
      exact absurd rfl (hother n fits)

theorem expecting_eq_error {α : Type} {name : String} {read? : Json → Option α} {e : CodecError} :
    (expecting name read? raw).result = .error e ↔ e = .unexpected name raw ∧ read? raw = none := by
  unfold expecting
  split <;> simp [*, eq_comm]

theorem decode_int_eq_ok {n : IntOf t} : ((int t).decode raw).result = .ok n ↔ raw.IsWhole n.val := by
  constructor
  · intro h
    obtain ⟨k, hread, h⟩ := Traced.result_bind_eq_ok.1 h
    obtain ⟨hwhole, -⟩ := wholeNumber?_eq_some_iff.1 (expecting_eq_ok.1 hread)
    by_cases hholds : t.Holds k
    · rw [IntOf.ofInt?, dif_pos hholds] at h
      cases h
      exact hwhole
    · rw [IntOf.ofInt?, dif_neg hholds] at h
      cases h
  · rintro ⟨fits, rfl⟩
    have hkeeps : (int t).Keeps (fun _ => True) n := keeps_int n
    obtain ⟨json, hencode, hdecode⟩ := hkeeps
    cases hencode
    exact hdecode trivial

theorem decode_int_eq_error {e : CodecError} :
    ((int t).decode raw).result = .error e
      ↔ e = .unexpectedType t.name outOfRange ∧ (∃ n, raw.IsWhole n ∧ t.carrier.Holds n ∧ ¬ t.Holds n)
        ∨ e = .unexpected t.name raw ∧ ∀ n, raw.IsWhole n → ¬ t.carrier.Holds n := by
  have hnone : wholeNumber? t.carrier raw = none ↔ ∀ n, raw.IsWhole n → ¬ t.carrier.Holds n := by
    simp only [Option.eq_none_iff_forall_ne_some, Ne, wholeNumber?_eq_some_iff, not_and]
  simp only [int, Traced.result_bind_eq_error, expecting_eq_ok, expecting_eq_error, wholeNumber?_eq_some_iff, hnone]
  rw [or_comm]
  refine or_congr_left ?_
  constructor
  · rintro ⟨n, ⟨hwhole, hcarrier⟩, h⟩
    by_cases hholds : t.Holds n
    · rw [IntOf.ofInt?, dif_pos hholds] at h
      cases h
    · rw [IntOf.ofInt?, dif_neg hholds] at h
      cases h
      exact ⟨rfl, n, hwhole, hcarrier, hholds⟩
  · rintro ⟨rfl, n, hwhole, hcarrier, hholds⟩
    refine ⟨n, ⟨hwhole, hcarrier⟩, ?_⟩
    rw [IntOf.ofInt?, dif_neg hholds]
    rfl

/-- A type reads exactly the whole numbers that its words stand for, each from the one document that it is written
as. A whole number that only 64 bits of the same signedness hold is out of range; every other document is of its
own kind, which is that of a number for a double, below zero without a sign, and from `2 ^ 63` on with one. What
two types read is the same number. -/
theorem whole_numbers_are_read_in_range (t : IntType) (raw : Json) :
    (∀ n, (∃ m, ((int t).decode raw).result = .ok m ∧ m.val = n) ↔ raw.IsWhole n ∧ IsWord t.signed t.bits n)
    ∧ (∀ m, ∃ json, ((int t).encode m).result = .ok json
      ∧ ∀ other, ((int t).decode other).result = .ok m ↔ other = json)
    ∧ (∀ e, ((int t).decode raw).result = .error e
      ↔ e = .unexpectedType t.name "out-of-range number"
          ∧ (∃ n, raw.IsWhole n ∧ IsWord t.signed 64 n ∧ ¬ IsWord t.signed t.bits n)
        ∨ e = .unexpectedType t.name raw.kind.name ∧ ∀ n, raw.IsWhole n → ¬ IsWord t.signed 64 n)
    ∧ (∀ x finite, raw = .num (.float x finite) →
      ((int t).decode raw).result = .error (.unexpectedType t.name "number"))
    ∧ (∀ n, raw.IsWhole n → (if t.signed then 2 ^ 63 ≤ n else n < 0) →
      ((int t).decode raw).result = .error (.unexpectedType t.name "number"))
    ∧ ∀ (other : IntType) (m : IntOf t) (k : IntOf other), ((int t).decode raw).result = .ok m →
      ((int other).decode raw).result = .ok k → m.val = k.val := by
  have fails (hwhole : ∀ n, raw.IsWhole n → ¬ t.carrier.Holds n) :
      ((int t).decode raw).result = .error (.unexpectedType t.name raw.kind.name) :=
    decode_int_eq_error.2 (.inr ⟨rfl, hwhole⟩)
  refine ⟨fun n => ?_, fun m => ?_, fun e => ?_, ?_, ?_, ?_⟩
  · rw [← IntType.holds_iff_isWord]
    constructor
    · rintro ⟨m, hm, rfl⟩
      exact ⟨decode_int_eq_ok.1 hm, m.holds⟩
    · rintro ⟨hwhole, hholds⟩
      exact ⟨⟨n, hholds⟩, decode_int_eq_ok.2 hwhole, rfl⟩
  · refine ⟨.num (.int m.val m.holds.fits), rfl, fun other => ?_⟩
    rw [decode_int_eq_ok]
    constructor
    · rintro ⟨_, rfl⟩
      rfl
    · rintro rfl
      exact ⟨_, rfl⟩
  · rw [decode_int_eq_error]
    simp only [IntType.carrier_holds_iff_isWord]
    simp only [IntType.holds_iff_isWord]
    exact Iff.rfl
  · rintro x finite rfl
    refine fails ?_
    rintro n ⟨_, hn⟩
    cases hn
  · rintro n ⟨fits, rfl⟩ hbeyond
    refine fails ?_
    rintro k ⟨_, hk⟩ hholds
    cases hk
    obtain ⟨hlow, hhigh⟩ := hholds
    cases t <;> simp [IntType.signed] at hbeyond <;>
      simp only [IntType.carrier, IntType.lowest, IntType.highest] at hlow hhigh <;> omega
  · intro other m k hm hk
    exact (decode_int_eq_ok.1 hm).unique (decode_int_eq_ok.1 hk)

/-- Too large for eight bits, below zero without a sign, the least number that a sign leaves no room for, and one
number that many types read. -/
theorem edges_of_ranges_are_told_apart :
    ((int .uint8).decode (.num (.int 256 (by decide)))).result
      = .error (.unexpectedType "uint8" "out-of-range number")
    ∧ ((int .uint64).decode (.num (.int (-1) (by decide)))).result = .error (.unexpectedType "uint64" "number")
    ∧ ((int .int64).decode (.num (.int (2 ^ 63) (by decide)))).result = .error (.unexpectedType "int64" "number")
    ∧ (∃ m, ((int .uint64).decode (.num (.int (2 ^ 63) (by decide)))).result = .ok m ∧ m.val = 2 ^ 63)
    ∧ ∃ m, ((int .int8).decode (.num (.int 127 (by decide)))).result = .ok m ∧ m.val = 127
      ∧ ∀ (other : IntType) k, ((int other).decode (.num (.int 127 (by decide)))).result = .ok k → k.val = 127 := by
  have whole (n : Int) (fits : -2 ^ 63 ≤ n ∧ n < 2 ^ 64) : (Json.num (.int n fits)).IsWhole n := ⟨fits, rfl⟩
  have byte := whole_numbers_are_read_in_range .uint8 (.num (.int 256 (by decide)))
  have negative := whole_numbers_are_read_in_range .uint64 (.num (.int (-1) (by decide)))
  have large := whole_numbers_are_read_in_range .int64 (.num (.int (2 ^ 63) (by decide)))
  have unsigned := whole_numbers_are_read_in_range .uint64 (.num (.int (2 ^ 63) (by decide)))
  have small := whole_numbers_are_read_in_range .int8 (.num (.int 127 (by decide)))
  refine ⟨?_, ?_, ?_, ?_, ?_⟩
  · obtain ⟨-, -, refused, -⟩ := byte
    refine (refused _).2 (.inl ⟨rfl, 256, whole _ _, isWord_unsigned_iff.2 (by decide), ?_⟩)
    exact fun hword => absurd (isWord_unsigned_iff.1 hword) (by decide)
  · obtain ⟨-, -, -, -, refused, -⟩ := negative
    exact refused (-1) (whole _ _) (by decide)
  · obtain ⟨-, -, -, -, refused, -⟩ := large
    exact refused (2 ^ 63) (whole _ _) (by decide)
  · obtain ⟨read, -⟩ := unsigned
    obtain ⟨m, hm, hvalue⟩ := (read (2 ^ 63)).2 ⟨whole _ _, isWord_unsigned_iff.2 (by decide)⟩
    exact ⟨m, hm, hvalue⟩
  · obtain ⟨read, -, -, -, -, agree⟩ := small
    obtain ⟨m, hm, hvalue⟩ := (read 127).2 ⟨whole _ _, (isWord_signed_iff (by decide)).2 (by decide)⟩
    exact ⟨m, hm, hvalue, fun other k hk => (agree other m k hm hk).symm.trans hvalue⟩

end Codec

end JsonWire
