/-
  JsonWire.Proofs.Rounding — rounding keeps what the format can hold.

  A magnitude of a format is a significand shifted to its place. `Normal` says which
  pairs of a shift and a significand are the ones of a code: the significand fits, and
  it has its leading bit unless nothing is shifted. Rounding a normal magnitude gives
  back its code (`nearest_of_normal`), so rounding is exact on the format itself
  (`nearest_units`) and on every narrower one (`Single.narrow_widen`).
-/

import JsonWire.Float.Rounding

namespace JsonWire

theorem roundHalfEven_mul (m : Nat) {den : Nat} (h : 0 < den) : roundHalfEven (m * den) den = m := by
  simp [roundHalfEven, Nat.mul_div_cancel m h, h]

theorem roundHalfEven_le (num den : Nat) : roundHalfEven num den ≤ num / den + 1 := by
  unfold roundHalfEven
  dsimp only
  split
  · omega
  · split <;> omega

namespace Format

variable {f : Format} {shift significand : Nat}

/-- The significand fits the format and, if it is shifted at all, fills it. -/
def Normal (f : Format) (shift significand : Nat) : Prop :=
  significand < 2 ^ (f.fractionBits + 1) ∧ (shift = 0 ∨ 2 ^ f.fractionBits ≤ significand)

theorem units_of_normal (h : f.Normal shift significand) :
    f.units (shift * 2 ^ f.fractionBits + significand) = significand * 2 ^ shift := by
  obtain ⟨hlt, hfull⟩ := h
  rw [Nat.pow_succ] at hlt
  have hpos := Nat.two_pow_pos f.fractionBits
  generalize hbound : 2 ^ f.fractionBits = bound at *
  by_cases hsmall : significand < bound
  · obtain rfl : shift = 0 := by omega
    simp [units, hbound, Nat.div_eq_of_lt hsmall, Nat.mod_eq_of_lt hsmall]
  · obtain ⟨fraction, rfl⟩ := Nat.exists_eq_add_of_le (Nat.le_of_not_lt hsmall)
    have hcode : shift * bound + (bound + fraction) = bound * (shift + 1) + fraction := by
      rw [Nat.mul_comm, Nat.mul_succ]
      omega
    have hfraction : fraction < bound := by omega
    simp [units, hbound, hcode, Nat.mul_add_div hpos, Nat.div_eq_of_lt hfraction,
      Nat.mod_eq_of_lt hfraction]

theorem exists_normal_of_code (f : Format) (code : Nat) :
    ∃ shift significand, f.Normal shift significand ∧ code = shift * 2 ^ f.fractionBits + significand := by
  have hpos := Nat.two_pow_pos f.fractionBits
  have hdivision := Nat.div_add_mod code (2 ^ f.fractionBits)
  have hfraction := Nat.mod_lt code hpos
  by_cases hexponent : code / 2 ^ f.fractionBits = 0
  · rw [hexponent, Nat.mul_zero, Nat.zero_add] at hdivision
    refine ⟨0, code, ⟨?_, .inl rfl⟩, by omega⟩
    rw [Nat.pow_succ]
    omega
  · obtain ⟨shift, hshift⟩ := Nat.exists_eq_succ_of_ne_zero hexponent
    rw [hshift, Nat.mul_succ, Nat.mul_comm] at hdivision
    refine ⟨shift, 2 ^ f.fractionBits + code % 2 ^ f.fractionBits, ⟨?_, .inr (Nat.le_add_right _ _)⟩, by omega⟩
    rw [Nat.pow_succ]
    omega

/-- A significand that fits can be moved up as far as its shift allows. -/
theorem exists_normal_of_lt {s : Nat} (hlt : significand < 2 ^ (f.fractionBits + 1)) (hs : f.fractionBits ≤ s) :
    ∃ shift full, f.Normal shift full ∧ significand * 2 ^ s = full * 2 ^ shift ∧ shift ≤ s := by
  by_cases hzero : significand = 0
  · exact ⟨0, 0, ⟨Nat.two_pow_pos _, .inl rfl⟩, by simp [hzero], Nat.zero_le s⟩
  have hlog : significand.log2 ≤ f.fractionBits := Nat.le_of_lt_succ ((Nat.log2_lt hzero).2 hlt)
  have hlow := Nat.log2_self_le hzero
  have hhigh := @Nat.lt_log2_self significand
  obtain ⟨up, hup⟩ := Nat.exists_eq_add_of_le hlog
  obtain ⟨rest, rfl⟩ := Nat.exists_eq_add_of_le (show up ≤ s by omega)
  refine ⟨rest, significand * 2 ^ up, ⟨?_, .inr ?_⟩, ?_, Nat.le_add_left _ _⟩
  · calc significand * 2 ^ up < 2 ^ (significand.log2 + 1) * 2 ^ up :=
          Nat.mul_lt_mul_of_pos_right hhigh (Nat.two_pow_pos up)
      _ = 2 ^ (f.fractionBits + 1) := by rw [← Nat.pow_add, hup]; congr 1; omega
  · rw [hup, Nat.pow_add]
    exact Nat.mul_le_mul_right _ hlow
  · rw [Nat.pow_add, Nat.mul_assoc]

theorem log2_of_normal (h : f.Normal shift significand) :
    (significand * 2 ^ shift).log2 - f.fractionBits = shift := by
  obtain ⟨hlt, hfull⟩ := h
  by_cases hzero : significand = 0
  · have hpos := Nat.two_pow_pos f.fractionBits
    simp only [hzero, Nat.zero_mul, Nat.log2_zero]
    omega
  have hscaled : significand * 2 ^ shift ≠ 0 := Nat.mul_ne_zero hzero (Nat.ne_of_gt (Nat.two_pow_pos shift))
  have hupper : (significand * 2 ^ shift).log2 < f.fractionBits + 1 + shift := by
    rw [Nat.log2_lt hscaled, Nat.pow_add]
    exact Nat.mul_lt_mul_of_pos_right hlt (Nat.two_pow_pos shift)
  rcases hfull with rfl | hfull
  · omega
  · have hlower : f.fractionBits + shift ≤ (significand * 2 ^ shift).log2 := by
      rw [Nat.le_log2 hscaled, Nat.pow_add]
      exact Nat.mul_le_mul_right _ hfull
    omega

theorem nearest_of_normal (h : f.Normal shift significand) {den : Nat} (hden : 0 < den) :
    f.nearest (significand * 2 ^ shift * den) den = shift * 2 ^ f.fractionBits + significand := by
  have hrearranged : significand * 2 ^ shift * den = significand * (den * 2 ^ shift) := by
    rw [Nat.mul_assoc, Nat.mul_comm den]
  simp only [nearest, Nat.mul_div_cancel _ hden, log2_of_normal h]
  rw [hrearranged, roundHalfEven_mul _ (Nat.mul_pos hden (Nat.two_pow_pos shift))]

/-- Rounding a magnitude of the format to the format changes nothing. -/
theorem nearest_units (f : Format) (code : Nat) {den : Nat} (hden : 0 < den) :
    f.nearest (f.units code * den) den = code := by
  obtain ⟨shift, significand, h, rfl⟩ := f.exists_normal_of_code code
  rw [units_of_normal h, nearest_of_normal h hden]

theorem nearest_le (f : Format) (num den : Nat) :
    f.nearest num den ≤ ((num / den).log2 - f.fractionBits + 2) * 2 ^ f.fractionBits := by
  have hround := roundHalfEven_le num (den * 2 ^ ((num / den).log2 - f.fractionBits))
  rw [← Nat.div_div_eq_div_mul] at hround
  have hquotient : num / den / 2 ^ ((num / den).log2 - f.fractionBits) < 2 ^ (f.fractionBits + 1) := by
    rw [Nat.div_lt_iff_lt_mul (Nat.two_pow_pos _), ← Nat.pow_add]
    exact Nat.lt_of_lt_of_le Nat.lt_log2_self (Nat.pow_le_pow_right Nat.two_pos (by omega))
  rw [Nat.pow_succ] at hquotient
  rw [nearest, Nat.add_mul]
  omega

end Format

/-! ## Doubles and singles -/

theorem Binary.ofCode_of_lt {f : Format} {code : Nat} (h : code < f.infinityCode) (negative : Bool) :
    ofCode negative code = ⟨negative, code, Nat.lt_trans h f.infinityCode_lt⟩ := by
  simp [ofCode, h]

theorem Format.nearest_double_lt {num : Nat} (h : num.log2 < 2097) :
    double.nearest num 1 < double.infinityCode := by
  have hle := double.nearest_le num 1
  rw [Nat.div_one] at hle
  change _ ≤ (num.log2 - 52 + 2) * 2 ^ 52 at hle
  change _ < (2 ^ 11 - 1) * 2 ^ 52
  omega

/-- Every whole number of 64 bits has a finite double. -/
theorem Double.isFinite_ofInt {n : Int} (h : -2 ^ 63 ≤ n ∧ n < 2 ^ 64) :
    (Binary.ofInt n : Double).isFinite = true := by
  have hlog : (n.natAbs * 2 ^ Format.double.unitExponent).log2 < 2097 := by
    have hunit : Format.double.unitExponent = 1074 := rfl
    generalize Format.double.unitExponent = unit at hunit ⊢
    by_cases hzero : n.natAbs = 0
    · simp [hzero]
    · rw [Nat.log2_lt (Nat.mul_ne_zero hzero (Nat.ne_of_gt (Nat.two_pow_pos unit)))]
      calc n.natAbs * 2 ^ unit < 2 ^ 65 * 2 ^ unit := Nat.mul_lt_mul_of_pos_right (by omega) (Nat.two_pow_pos unit)
        _ = 2 ^ (65 + unit) := by rw [Nat.pow_add]
        _ ≤ 2 ^ 2097 := Nat.pow_le_pow_right Nat.two_pos (by omega)
  have hcode := Format.nearest_double_lt hlog
  simp [Binary.ofInt, Binary.round, Binary.ofCode_of_lt hcode, Binary.isFinite, hcode]

namespace Single

/-- The double that a finite single becomes: of the same magnitude, counted in smaller units. -/
theorem widen_eq {x : Single} (h : x.isFinite = true) :
    ∃ code, ∃ hcode : code < Format.double.infinityCode,
      x.widen = ⟨x.negative, code, Nat.lt_trans hcode Format.double.infinityCode_lt⟩
        ∧ Format.double.units code = Format.single.units x.code * 2 ^ Double.unitGap := by
  obtain ⟨shift, significand, hnormal, hx⟩ := Format.single.exists_normal_of_code x.code
  have hfinite : x.code < Format.single.infinityCode := by simpa [Binary.isFinite] using h
  have hunits : Format.single.units x.code * 2 ^ Double.unitGap = significand * 2 ^ (shift + Double.unitGap) := by
    rw [hx, Format.units_of_normal hnormal, Nat.mul_assoc, Nat.pow_add]
  have hshift : shift ≤ 253 := by
    change x.code < (2 ^ 8 - 1) * 2 ^ 23 at hfinite
    change x.code = shift * 2 ^ 23 + significand at hx
    rcases hnormal.2 with hzero | hfull
    · omega
    · change 2 ^ 23 ≤ significand at hfull
      omega
  have hlt : significand < 2 ^ (Format.double.fractionBits + 1) :=
    Nat.lt_trans hnormal.1 (by decide)
  obtain ⟨up, full, hup, hfull, hle⟩ := Format.exists_normal_of_lt (s := shift + Double.unitGap) hlt
    (Nat.le_trans (by decide : _ ≤ Double.unitGap) (Nat.le_add_left _ _))
  have hcode : up * 2 ^ Format.double.fractionBits + full < Format.double.infinityCode := by
    have hfits : full < 2 ^ 53 := hup.1
    change up ≤ shift + 925 at hle
    change up * 2 ^ 52 + full < (2 ^ 11 - 1) * 2 ^ 52
    omega
  refine ⟨_, hcode, ?_, ?_⟩
  · have hnearest := Format.nearest_of_normal hup Nat.one_pos
    rw [Nat.mul_one, ← hfull, ← hunits] at hnearest
    rw [widen, if_pos h, Binary.round, hnearest, Binary.ofCode_of_lt hcode]
  · rw [Format.units_of_normal hup, ← hfull, ← hunits]

theorem isFinite_widen {x : Single} (h : x.isFinite = true) : x.widen.isFinite = true := by
  obtain ⟨code, hcode, hx, -⟩ := widen_eq h
  rw [hx]
  simpa [Binary.isFinite] using hcode

/-- An infinity or a non-number stays what it is. -/
theorem isFinite_of_widen {x : Single} (h : x.widen.isFinite = true) : x.isFinite = true := by
  by_cases hx : x.isFinite = true
  · exact hx
  · have hlarge : ¬ Format.double.codeBound - 1 < Format.double.infinityCode := by decide
    rw [widen, if_neg hx] at h
    split at h
    · simp [Binary.isFinite, hlarge] at h
    · simp [Binary.isFinite, Binary.ofCode] at h

/-- Widening a finite single loses nothing. -/
theorem narrow_widen {x : Single} (h : x.isFinite = true) : x.widen.narrow = x := by
  have hfinite := isFinite_widen h
  obtain ⟨code, hcode, hx, hunits⟩ := widen_eq h
  have hcode : x.code < Format.single.infinityCode := by simpa [Binary.isFinite] using h
  rw [Double.narrow, if_pos hfinite, hx, hunits, Binary.round,
    Format.nearest_units _ _ (Nat.two_pow_pos _), Binary.ofCode_of_lt hcode]

end Single

end JsonWire
