/-
  JsonWire.Proofs.Membership — a strict domain is a lenient one with a check.

  Both read a document with the codec of the scalar. The check comes after, and asks about
  the scalar while it tells of the document: of one number as the document has it and as
  the type has it only the second counts, so a whole number that is read as a float, or a
  double that becomes a single, may be a member though no literal was written so.

  For any scalar type this is one equivalence for success and one for failure
  (`Domain.decode_eq_ok`, `Domain.decode_eq_error`). What is more holds of the scalar types
  that there are (`LawfulScalar`): reading them fails for the kind of a document only,
  which is no matter of members; what is written is read back; and a scalar that can be
  written is like itself, so a literal that can be written is a member.
-/

import JsonWire.Proofs.Faithful

namespace JsonWire

variable {S : Type}

/-! ## Scalars -/

/-- The value is not of the type, or not in its range. -/
def CodecError.Mistyped : CodecError → Prop
  | .unexpectedType .. => True
  | _ => False

theorem Codec.mistyped_of_expecting {name : String} {read? : Json → Option S} {raw : Json} {e : CodecError}
    (h : (expecting name read? raw).result = .error e) : e.Mistyped := by
  unfold expecting at h
  split at h
  · cases h
  · cases h
    trivial

/-- A finite float is like itself. -/
theorem Binary.alike_self {f : Format} {x : Binary f} (h : x.isFinite = true) : alike x x = true := by
  have hlt : x.code < f.infinityCode := by simpa [isFinite] using h
  have hnumber : x.isNaN = false := by simpa [isNaN] using Nat.le_of_lt hlt
  simp [alike, hnumber]

/-- What reading and writing a scalar keep to. -/
class LawfulScalar (S : Type) [Scalar S] : Prop where
  mistyped : ∀ raw e, ((Scalar.codec : Codec S).decode raw).result = .error e → e.Mistyped
  faithful : (Scalar.codec : Codec S).Faithful
  alike_self : ∀ (scalar : S) json, (Scalar.codec.encode scalar).result = .ok json → alike scalar scalar = true

instance : LawfulScalar String where
  mistyped _ _ := Codec.mistyped_of_expecting
  faithful := Codec.faithful_string
  alike_self text _ _ := decide_eq_true (rfl : text = text)

instance {t : IntType} : LawfulScalar (IntOf t) where
  mistyped raw e h := by
    rcases Traced.result_bind_eq_error.1 h with h | ⟨n, -, h⟩
    · exact Codec.mistyped_of_expecting h
    · cases hfits : (IntOf.ofInt? n : Option (IntOf t)) <;> rw [hfits] at h <;> cases h
      trivial
  faithful := Codec.faithful_int
  alike_self n _ _ := decide_eq_true (rfl : n = n)

instance : LawfulScalar Double where
  mistyped _ _ := Codec.mistyped_of_expecting
  faithful := Codec.faithful_float64
  alike_self _ _ h := Binary.alike_self (Codec.isFinite_of_encodeFloat h)

instance : LawfulScalar Single where
  mistyped raw e h := by
    rcases Traced.result_bind_eq_error.1 h with h | ⟨x, -, h⟩
    · exact Codec.mistyped_of_expecting h
    · split at h <;> cases h
      trivial
  faithful := Codec.faithful_float32
  alike_self _ _ h := Binary.alike_self (Single.isFinite_of_widen (Codec.isFinite_of_encodeFloat h))

/-- The types that domains are declared over. -/
inductive ScalarType where
  | string
  | int (t : IntType)
  | float32
  | float64

namespace ScalarType

def Carrier : ScalarType → Type
  | .string => String
  | .int t => IntOf t
  | .float32 => Single
  | .float64 => Double

instance : (type : ScalarType) → Scalar type.Carrier
  | .string => inferInstanceAs (Scalar String)
  | .int t => inferInstanceAs (Scalar (IntOf t))
  | .float32 => inferInstanceAs (Scalar Single)
  | .float64 => inferInstanceAs (Scalar Double)

instance : (type : ScalarType) → LawfulScalar type.Carrier
  | .string => inferInstanceAs (LawfulScalar String)
  | .int t => inferInstanceAs (LawfulScalar (IntOf t))
  | .float32 => inferInstanceAs (LawfulScalar Single)
  | .float64 => inferInstanceAs (LawfulScalar Double)

end ScalarType

/-! ## Reading -/

namespace Domain

variable [Scalar S] {domain : Domain S} {name : String} {literals : List S} {raw json : Json} {scalar : S}
  {e : CodecError}

theorem decode_eq_ok :
    (domain.decode raw).result = .ok scalar
      ↔ (Scalar.codec.decode raw).result = .ok scalar ∧ domain.admits scalar = true := by
  rw [decode, Traced.result_bind_eq_ok]
  constructor
  · rintro ⟨read, hread, hpassed⟩
    split at hpassed
    · cases hpassed
      exact ⟨hread, by assumption⟩
    · cases hpassed
  · rintro ⟨hread, hadmits⟩
    refine ⟨scalar, hread, ?_⟩
    rw [if_pos hadmits]
    rfl

theorem decode_eq_error :
    (domain.decode raw).result = .error e
      ↔ ((Scalar.codec : Codec S).decode raw).result = .error e
        ∨ (∃ scalar, (Scalar.codec.decode raw).result = .ok scalar ∧ domain.admits scalar = false)
          ∧ e = .notInDomain domain.name raw := by
  rw [decode, Traced.result_bind_eq_error]
  refine or_congr_right ?_
  constructor
  · rintro ⟨read, hread, hrefused⟩
    split at hrefused
    · cases hrefused
    · rename_i hadmits
      cases hrefused
      exact ⟨⟨read, hread, Bool.eq_false_iff.2 hadmits⟩, rfl⟩
  · rintro ⟨⟨read, hread, hadmits⟩, rfl⟩
    refine ⟨read, hread, ?_⟩
    rw [if_neg (Bool.eq_false_iff.1 hadmits)]
    rfl

/-- A member that is like itself is contained. -/
theorem contains_of_mem (hmem : scalar ∈ domain.literals) (hself : alike scalar scalar = true) :
    domain.contains scalar = true :=
  List.any_eq_true.2 ⟨scalar, hmem, hself⟩

/-! ### A lenient and a strict domain of the same literals -/

section

variable {lenient strict : Domain S}

theorem result_decode_lenient (hlenient : lenient.membership = .lenient) :
    (lenient.decode raw).result = (Scalar.codec.decode raw).result := by
  cases hread : ((Scalar.codec : Codec S).decode raw).result with
  | ok scalar =>
    have hadmits : lenient.admits scalar = true := by simp [admits, hlenient]
    exact decode_eq_ok.2 ⟨hread, hadmits⟩
  | error e => exact decode_eq_error.2 (.inl hread)

theorem admits_strict (hstrict : strict.membership = .strict) : strict.admits scalar = strict.contains scalar := by
  simp [admits, hstrict]

theorem strict_eq_ok (hlenient : lenient.membership = .lenient) (hstrict : strict.membership = .strict) :
    (strict.decode raw).result = .ok scalar
      ↔ (lenient.decode raw).result = .ok scalar ∧ strict.contains scalar = true := by
  rw [decode_eq_ok, admits_strict hstrict, result_decode_lenient hlenient]

theorem strict_eq_error (hlenient : lenient.membership = .lenient) (hstrict : strict.membership = .strict) :
    (strict.decode raw).result = .error e
      ↔ (lenient.decode raw).result = .error e
        ∨ (∃ scalar, (lenient.decode raw).result = .ok scalar ∧ strict.contains scalar = false)
          ∧ e = .notInDomain strict.name raw := by
  rw [decode_eq_error, result_decode_lenient hlenient]
  simp only [admits_strict hstrict]

variable [LawfulScalar S]

/-- Reading a scalar never fails for its members. -/
theorem lenient_ne_notInDomain (hlenient : lenient.membership = .lenient) {name : String} {value : Json} :
    (lenient.decode raw).result ≠ .error (.notInDomain name value) := by
  rw [result_decode_lenient hlenient]
  exact LawfulScalar.mistyped raw _

theorem strict_eq_notInDomain (hlenient : lenient.membership = .lenient) (hstrict : strict.membership = .strict)
    {name : String} {value : Json} :
    (strict.decode raw).result = .error (.notInDomain name value)
      ↔ (∃ scalar, (lenient.decode raw).result = .ok scalar ∧ strict.contains scalar = false)
        ∧ name = strict.name ∧ value = raw := by
  rw [strict_eq_error hlenient hstrict, or_iff_right (lenient_ne_notInDomain hlenient), CodecError.notInDomain.injEq]

/-- Every other failure is one of both. -/
theorem lenient_eq_error (hlenient : lenient.membership = .lenient) (hstrict : strict.membership = .strict) :
    (lenient.decode raw).result = .error e
      ↔ (strict.decode raw).result = .error e ∧ ∀ name value, e ≠ .notInDomain name value := by
  constructor
  · intro herror
    refine ⟨(strict_eq_error hlenient hstrict).2 (.inl herror), fun name value he => ?_⟩
    rw [he] at herror
    exact lenient_ne_notInDomain hlenient herror
  · rintro ⟨herror, hother⟩
    refine ((strict_eq_error hlenient hstrict).1 herror).resolve_right fun hrefused => ?_
    exact hother _ _ hrefused.2

theorem lenient_of_encode (hlenient : lenient.membership = .lenient)
    (hencode : (lenient.encode scalar).result = .ok json) : (lenient.decode json).result = .ok scalar := by
  rw [result_decode_lenient hlenient]
  exact LawfulScalar.faithful scalar json hencode

end

end Domain

/-- Over the same literals, a strict domain reads what a lenient one reads as a member. What that reads as no
member it refuses, with the document as it is; in every other failure the two agree. What is written of a
scalar the lenient domain reads back, and the strict one exactly if the scalar is a member, as every literal
is that can be written. A value of an enumeration that was read leniently is known exactly if the strict
domain reads the same document. -/
theorem strict_is_lenient_with_membership (type : ScalarType) (name : String) (literals : List type.Carrier) :
    let lenient : Domain type.Carrier := ⟨name, literals, .lenient⟩
    let strict : Domain type.Carrier := ⟨name, literals, .strict⟩
    (∀ raw scalar, (strict.decode raw).result = .ok scalar
      ↔ (lenient.decode raw).result = .ok scalar ∧ strict.contains scalar = true)
    ∧ (∀ raw told value, (strict.decode raw).result = .error (.notInDomain told value)
      ↔ (∃ scalar, (lenient.decode raw).result = .ok scalar ∧ strict.contains scalar = false)
        ∧ told = name ∧ value = raw)
    ∧ (∀ raw e, (lenient.decode raw).result = .error e
      ↔ (strict.decode raw).result = .error e ∧ ∀ told value, e ≠ .notInDomain told value)
    ∧ (∀ scalar json, (lenient.encode scalar).result = .ok json → (lenient.decode json).result = .ok scalar)
    ∧ (∀ scalar json, (strict.encode scalar).result = .ok json →
      ((strict.decode json).result = .ok scalar ↔ strict.contains scalar = true))
    ∧ (∀ literal ∈ literals, ∀ json, (strict.encode literal).result = .ok json →
      (strict.decode json).result = .ok literal)
    ∧ ∀ (E : Type) (wrap : type.Carrier → E) (unwrap : E → type.Carrier), (∀ scalar, unwrap (wrap scalar) = scalar) →
      ∀ raw value, ((lenient.codec.imap wrap unwrap).decode raw).result = .ok value →
        (lenient.contains (unwrap value) = true
          ↔ ∃ known, ((strict.codec.imap wrap unwrap).decode raw).result = .ok known) := by
  intro lenient strict
  have reads (raw : Json) (scalar : type.Carrier) :
      (strict.decode raw).result = .ok scalar
        ↔ (lenient.decode raw).result = .ok scalar ∧ strict.contains scalar = true := Domain.strict_eq_ok rfl rfl
  have rereads (scalar : type.Carrier) (json : Json) (hencode : (lenient.encode scalar).result = .ok json) :
      (lenient.decode json).result = .ok scalar := Domain.lenient_of_encode rfl hencode
  refine ⟨reads, fun raw told value => Domain.strict_eq_notInDomain rfl rfl,
    fun raw e => Domain.lenient_eq_error rfl rfl, rereads, ?_, ?_, ?_⟩
  · intro scalar json hencode
    rw [reads, and_iff_right (rereads scalar json hencode)]
  · intro literal hmem json hencode
    have member : strict.contains literal = true :=
      Domain.contains_of_mem hmem (LawfulScalar.alike_self literal json hencode)
    exact (reads json literal).2 ⟨rereads literal json hencode, member⟩
  · intro E wrap unwrap undone raw value hvalue
    obtain ⟨scalar, hscalar, ⟨⟩⟩ := Traced.result_bind_eq_ok.1 hvalue
    rw [undone]
    constructor
    · intro member
      exact ⟨wrap scalar, Traced.result_bind_eq_ok.2 ⟨scalar, (reads raw scalar).2 ⟨hscalar, member⟩, rfl⟩⟩
    · rintro ⟨known, hknown⟩
      obtain ⟨read, hread, -⟩ := Traced.result_bind_eq_ok.1 hknown
      obtain ⟨hagain, member⟩ := (reads raw read).1 hread
      obtain rfl : scalar = read := Except.ok.inj (hscalar.symm.trans hagain)
      exact member

/-- A number is read as the nearest single, if that is finite. -/
theorem Codec.float32_decode_num {number : Number} (h : number.toDouble.narrow.isFinite = true) :
    (float32.decode (.num number)).result = .ok number.toDouble.narrow := by
  simp [float32, expecting, number?, h]

/-- No single is `2 ^ 24 + 1`, the nearest is `2 ^ 24`. So as a single the number is a member where that is the
only literal, though the literal is written otherwise. A number that is read as `2 ^ 24 + 4` is refused as it
stands in the document. -/
theorem nearest_single_is_the_member :
    let literal : Single := ⟨false, 151 * 2 ^ 23, by decide⟩
    let strict : Domain Single := ⟨"Scale", [literal], .strict⟩
    let near : Json := .num (.int (2 ^ 24 + 1) (by decide))
    let far : Json := .num (.int (2 ^ 24 + 3) (by decide))
    let written : Json := .num (.float literal.widen (Single.isFinite_widen (by decide)))
    (strict.decode near).result = .ok literal
    ∧ (strict.encode literal).result = .ok written ∧ alike written near = false
    ∧ (strict.decode written).result = .ok literal
    ∧ (strict.decode far).result = .error (.notInDomain "Scale" far) := by
  intro literal strict near far written
  obtain ⟨reads, refuses, -, -, -, literals, -⟩ := strict_is_lenient_with_membership .float32 "Scale" [literal]
  let lenient : Domain Single := ⟨"Scale", [literal], .lenient⟩
  let other : Single := ⟨false, 151 * 2 ^ 23 + 2, by decide⟩
  have near_nearest : Double.narrow (Binary.ofInt (2 ^ 24 + 1)) = literal := by decide +kernel
  have far_nearest : Double.narrow (Binary.ofInt (2 ^ 24 + 3)) = other := by decide +kernel
  have near_read : (lenient.decode near).result = .ok literal := by
    rw [← near_nearest]
    exact Domain.decode_eq_ok.2 ⟨Codec.float32_decode_num (by decide +kernel), rfl⟩
  have far_read : (lenient.decode far).result = .ok other := by
    rw [← far_nearest]
    exact Domain.decode_eq_ok.2 ⟨Codec.float32_decode_num (by decide +kernel), rfl⟩
  have hwritten : (strict.encode literal).result = .ok written := by
    unfold Domain.encode
    exact Codec.encodeFloat_of_isFinite (x := literal.widen) _
  have member : strict.contains literal = true := by decide
  have foreign : strict.contains other = false := by decide
  refine ⟨(reads near literal).2 ⟨near_read, member⟩, hwritten, rfl, ?_, ?_⟩
  · exact literals literal (.head _) written hwritten
  · exact (refuses far "Scale" far).2 ⟨⟨other, far_read, foreign⟩, rfl, rfl⟩

end JsonWire
