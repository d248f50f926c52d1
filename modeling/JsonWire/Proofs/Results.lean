/-
  JsonWire.Proofs.Results — how a sequence of runs ends.

  A sequence succeeds exactly when each of its runs does, and its failure is the failure
  of the first run that fails. Results of codecs are taken apart by these alone; events
  play no part in them.
-/

import JsonWire.Traced
import Mathlib.Data.List.Forall2
import Mathlib.Logic.Basic

namespace JsonWire

variable {α β : Type}

@[simp] theorem mapError_eq_ok {x : Except CodecError α} {f : CodecError → CodecError} {a : α} :
    x.mapError f = .ok a ↔ x = .ok a := by
  cases x with
  | ok b => exact Iff.rfl
  | error e =>
    show Except.error (f e) = .ok a ↔ _
    simp

@[simp] theorem mapError_eq_error {x : Except CodecError α} {f : CodecError → CodecError} {e : CodecError} :
    x.mapError f = .error e ↔ ∃ cause, x = .error cause ∧ f cause = e := by
  cases x with
  | ok b =>
    show Except.ok b = .error e ↔ _
    simp
  | error cause =>
    show Except.error (f cause) = .error e ↔ _
    simp

namespace Traced

@[simp] theorem result_bind_eq_ok {x : Traced α} {next : α → Traced β} {b : β} :
    (x >>= next).result = .ok b ↔ ∃ a, x.result = .ok a ∧ (next a).result = .ok b := by
  rw [result_bind]
  cases x.result <;> simp [bind, Except.bind]

@[simp] theorem result_bind_eq_error {x : Traced α} {next : α → Traced β} {e : CodecError} :
    (x >>= next).result = .error e
      ↔ x.result = .error e ∨ ∃ a, x.result = .ok a ∧ (next a).result = .error e := by
  rw [result_bind]
  cases x.result <;> simp [bind, Except.bind]

@[simp] theorem result_map_eq_ok {x : Traced α} {f : α → β} {b : β} :
    (f <$> x).result = .ok b ↔ ∃ a, x.result = .ok a ∧ f a = b := by
  rw [map_eq_pure_bind, result_bind_eq_ok]
  simp

@[simp] theorem result_map_eq_error {x : Traced α} {f : α → β} {e : CodecError} :
    (f <$> x).result = .error e ↔ x.result = .error e := by
  rw [map_eq_pure_bind, result_bind_eq_error]
  simp

theorem bind_of_ok {x : Traced α} {next : α → Traced β} {a : α} (h : x.result = .ok a) :
    x >>= next = ⟨x.events ++ (next a).events, (next a).result⟩ := by
  obtain ⟨events, result⟩ := x
  cases h
  rfl

theorem bind_of_error {x : Traced α} {next : α → Traced β} {e : CodecError} (h : x.result = .error e) :
    x >>= next = ⟨x.events, .error e⟩ := by
  obtain ⟨events, result⟩ := x
  cases h
  rfl

/-- What is made of a result reports nothing. -/
@[simp] theorem events_bind_pure (x : Traced α) (f : α → β) : (x >>= fun a => pure (f a)).events = x.events := by
  rw [events_bind]
  cases x.result <;> simp

@[simp] theorem result_reportAll (events : List Event) : (reportAll events).result = .ok () := rfl

@[simp] theorem result_ofExcept (result : Except CodecError α) : (ofExcept result).result = result := rfl

/-- A run that does not fail has a value. -/
theorem exists_ok_of_forall_ne_error {x : Except CodecError α} (h : ∀ e, x ≠ .error e) : ∃ a, x = .ok a := by
  cases x with
  | ok a => exact ⟨a, rfl⟩
  | error e => exact absurd rfl (h e)

end Traced

/-- Each item has something that goes with it exactly if a whole list goes with the items. -/
theorem exists_forall₂_iff {α β : Type*} {R : α → β → Prop} {items : List α} :
    (∃ out, List.Forall₂ R items out) ↔ ∀ item ∈ items, ∃ done, R item done := by
  induction items with
  | nil => simp
  | cons item rest ih =>
    rw [List.forall_mem_cons, ← ih]
    constructor
    · rintro ⟨_, _ | ⟨hhere, hrest⟩⟩
      exact ⟨⟨_, hhere⟩, _, hrest⟩
    · rintro ⟨⟨done, hhere⟩, out, hrest⟩
      exact ⟨done :: out, .cons hhere hrest⟩

end JsonWire
