/-
  JsonWire.Text.Digits — decimal digits at the head of a text.

  `spanDigits` splits a text where its leading digits end; nothing is lost and the two
  parts are what they say (`spanDigits_append`, `spanDigits_eq_iff`). Digits are the ten
  of ASCII (`isDigit_iff`). Where the characters of any other kind end is said alike
  (`span_eq_iff`).
-/

namespace JsonWire.Text

/-- The number that decimal digits spell. -/
def digitsValue (digits : List Char) : Nat :=
  digits.foldl (fun n c => 10 * n + (c.toNat - '0'.toNat)) 0

theorem isDigit_iff {c : Char} : c.isDigit = true ↔ 48 ≤ c.toNat ∧ c.toNat ≤ 57 := by
  simp [Char.isDigit, UInt32.le_iff_toNat_le]

theorem digit_lt_ten {c : Char} (h : c.isDigit = true) : c.toNat - '0'.toNat < 10 := by
  have hhigh := (isDigit_iff.1 h).2
  show c.toNat - 48 < 10
  omega

def spanDigits (s : List Char) : List Char × List Char :=
  (s.takeWhile Char.isDigit, s.dropWhile Char.isDigit)

theorem spanDigits_append (s : List Char) : (spanDigits s).1 ++ (spanDigits s).2 = s :=
  List.takeWhile_append_dropWhile

theorem length_spanDigits (s : List Char) :
    (spanDigits s).1.length + (spanDigits s).2.length = s.length := by
  rw [← List.length_append, spanDigits_append]

/-- What satisfies a predicate ends where something comes that does not. -/
theorem span_eq_iff {p : Char → Bool} {s taken rest : List Char} :
    s.takeWhile p = taken ∧ s.dropWhile p = rest
      ↔ s = taken ++ rest ∧ (∀ c ∈ taken, p c = true) ∧ ∀ c, rest.head? = some c → p c = false := by
  constructor
  · rintro ⟨rfl, rfl⟩
    refine ⟨List.takeWhile_append_dropWhile.symm, List.all_eq_true.1 List.all_takeWhile, fun c hc => ?_⟩
    have hstop := List.head?_dropWhile_not p s
    rw [hc] at hstop
    exact hstop
  · rintro ⟨rfl, htaken, hrest⟩
    rw [List.takeWhile_append_of_pos htaken, List.dropWhile_append_of_pos htaken]
    cases rest with
    | nil => simp
    | cons c rest => simp [hrest c rfl]

theorem spanDigits_eq_iff {s digits rest : List Char} :
    spanDigits s = (digits, rest)
      ↔ s = digits ++ rest ∧ (∀ c ∈ digits, c.isDigit = true) ∧ ∀ c, rest.head? = some c → c.isDigit = false := by
  rw [← span_eq_iff, spanDigits, Prod.mk.injEq]

end JsonWire.Text
