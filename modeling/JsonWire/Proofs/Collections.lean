/-
  JsonWire.Proofs.Collections — running a step on every element or entry.

  A run succeeds exactly when the step does on each, with the results in order
  (`eachItem_eq_ok`, `eachEntry_eq_ok`), and fails as the first that does, under its
  index or key (`eachItem_eq_error`, `eachEntry_eq_error`).
-/

import JsonWire.Codec.Collections
import JsonWire.Proofs.Results
import Mathlib.Data.List.Forall2

namespace JsonWire.Codec

variable {α β : Type} {step : α → Traced β} {e : CodecError}

/-! ## Elements -/

theorem eachItem_eq_ok {i : Nat} {items : List α} {out : List β} :
    (eachItem step i items).result = .ok out
      ↔ List.Forall₂ (fun item done => (step item).result = .ok done) items out := by
  induction items generalizing i out with
  | nil => simp [eachItem, eq_comm]
  | cons item rest ih =>
    simp only [eachItem, Traced.result_bind_eq_ok, Traced.result_inField, mapError_eq_ok, ih]
    refine ⟨fun h => ?_, fun h => ?_⟩
    · obtain ⟨done, hdone, more, hmore, ⟨⟩⟩ := h
      exact .cons hdone hmore
    · rcases h with _ | ⟨hdone, hmore⟩
      exact ⟨_, hdone, _, hmore, rfl⟩

/-- A result is that of the element at its index. -/
theorem getElem?_of_eachItem {i j : Nat} {items : List α} {out : List β} {done : β}
    (h : (eachItem step i items).result = .ok out) (hdone : out[j]? = some done) :
    ∃ item, items[j]? = some item ∧ (step item).result = .ok done := by
  have each := eachItem_eq_ok.1 h
  obtain ⟨hlength, hget⟩ := List.getElem?_eq_some_iff.1 hdone
  have hitems : j < items.length := each.length_eq ▸ hlength
  have hstep := each.get hitems hlength
  rw [List.get_eq_getElem, List.get_eq_getElem, hget] at hstep
  exact ⟨items[j], List.getElem?_eq_getElem hitems, hstep⟩

theorem exists_of_mem_eachItem {i : Nat} {items : List α} {out : List β}
    (h : (eachItem step i items).result = .ok out)
    {done : β} (hdone : done ∈ out) : ∃ item ∈ items, (step item).result = .ok done := by
  obtain ⟨j, hj⟩ := List.getElem?_of_mem hdone
  obtain ⟨item, hitem, hstep⟩ := getElem?_of_eachItem h hj
  exact ⟨item, List.mem_of_getElem? hitem, hstep⟩

theorem eachItem_eq_error {i : Nat} {items : List α} :
    (eachItem step i items).result = .error e
      ↔ ∃ before item after cause, items = before ++ item :: after
          ∧ (∀ earlier ∈ before, ∃ done, (step earlier).result = .ok done)
          ∧ (step item).result = .error cause ∧ e = .inField (indexField (i + before.length)) cause := by
  induction items generalizing i with
  | nil => simp [eachItem]
  | cons head rest ih =>
    simp only [eachItem, Traced.result_bind_eq_error, Traced.result_inField, mapError_eq_error, mapError_eq_ok, ih]
    refine ⟨fun h => ?_, fun h => ?_⟩
    · rcases h with ⟨cause, hcause, rfl⟩
        | ⟨done, hdone, ⟨before, item, after, cause, rfl, hbefore, hcause, rfl⟩ | ⟨_, -, ⟨⟩⟩⟩
      · exact ⟨[], head, rest, cause, rfl, by simp, hcause, rfl⟩
      · refine ⟨head :: before, item, after, cause, rfl, ?_, hcause, ?_⟩
        · simpa using ⟨⟨done, hdone⟩, hbefore⟩
        · rw [List.length_cons, Nat.add_assoc, Nat.add_comm 1]
    · obtain ⟨before, item, after, cause, hsplit, hbefore, hcause, rfl⟩ := h
      cases before with
      | nil =>
        cases hsplit
        exact .inl ⟨cause, hcause, rfl⟩
      | cons first before =>
        cases hsplit
        obtain ⟨done, hdone⟩ := hbefore head List.mem_cons_self
        refine .inr ⟨done, hdone, .inl ⟨before, item, after, cause, rfl, ?_, hcause, ?_⟩⟩
        · exact fun earlier hearlier => hbefore earlier (List.mem_cons_of_mem _ hearlier)
        · rw [List.length_cons, Nat.add_assoc, Nat.add_comm 1]

/-! ## Entries -/

theorem eachEntry_eq_ok {entries : List (String × α)} {out : List (String × β)} :
    (eachEntry step entries).result = .ok out
      ↔ List.Forall₂ (fun entry done => done.1 = entry.1 ∧ (step entry.2).result = .ok done.2) entries out := by
  induction entries generalizing out with
  | nil => simp [eachEntry, eq_comm]
  | cons entry rest ih =>
    obtain ⟨key, value⟩ := entry
    simp only [eachEntry, Traced.result_bind_eq_ok, Traced.result_inField, mapError_eq_ok, ih]
    refine ⟨fun h => ?_, fun h => ?_⟩
    · obtain ⟨done, hdone, more, hmore, ⟨⟩⟩ := h
      exact .cons ⟨rfl, hdone⟩ hmore
    · rcases h with _ | ⟨⟨rfl, hdone⟩, hmore⟩
      exact ⟨_, hdone, _, hmore, rfl⟩

theorem exists_of_mem_eachEntry {entries : List (String × α)} {out : List (String × β)}
    (h : (eachEntry step entries).result = .ok out) {key : String} {done : β} (hdone : (key, done) ∈ out) :
    ∃ value, (key, value) ∈ entries ∧ (step value).result = .ok done := by
  induction eachEntry_eq_ok.1 h with
  | nil => cases hdone
  | @cons entry first entries out hfirst hrest ih =>
    rcases List.mem_cons.1 hdone with rfl | hdone
    · obtain ⟨rfl, hstep⟩ := hfirst
      exact ⟨entry.2, List.mem_cons_self, hstep⟩
    · obtain ⟨value, hvalue, hstep⟩ := ih (eachEntry_eq_ok.2 hrest) hdone
      exact ⟨value, List.mem_cons_of_mem _ hvalue, hstep⟩

/-- The last entry of a key has its result last. -/
theorem exists_lookup_of_eachEntry {entries : List (String × α)} {out : List (String × β)}
    (h : (eachEntry step entries).result = .ok out) {key : String} {done : β}
    (hdone : (Entries.ofList out).lookup key = some done) :
    ∃ value, (Entries.ofList entries).lookup key = some value ∧ (step value).result = .ok done := by
  -- What has been inserted so far corresponds, key by key.
  have grown : ∀ (so : List (String × α)) (far : List (String × β)),
      (∀ other done, far.lookup other = some done →
        ∃ value, so.lookup other = some value ∧ (step value).result = .ok done) →
      (out.foldl (fun es pair => Entries.insert pair.1 pair.2 es) far).lookup key = some done →
      ∃ value, (entries.foldl (fun es pair => Entries.insert pair.1 pair.2 es) so).lookup key = some value
        ∧ (step value).result = .ok done := by
    clear hdone
    induction eachEntry_eq_ok.1 h with
    | nil => exact fun so far corresponds hdone => corresponds key done hdone
    | @cons entry first entries out hfirst hrest ih =>
      intro so far corresponds hdone
      refine ih (eachEntry_eq_ok.2 hrest) _ _ (fun other done hother => ?_) hdone
      simp only [Entries.lookup_insert, hfirst.1] at hother ⊢
      by_cases hkey : other = entry.1
      · simp only [if_pos hkey] at hother ⊢
        cases hother
        exact ⟨entry.2, rfl, hfirst.2⟩
      · simp only [if_neg hkey] at hother ⊢
        exact corresponds other done hother
  exact grown [] [] (fun other done hnone => by cases hnone) hdone

theorem eachEntry_eq_error {entries : List (String × α)} :
    (eachEntry step entries).result = .error e
      ↔ ∃ before key value after cause, entries = before ++ (key, value) :: after
          ∧ (∀ earlier ∈ before, ∃ done, (step earlier.2).result = .ok done)
          ∧ (step value).result = .error cause ∧ e = .inField key cause := by
  induction entries with
  | nil => simp [eachEntry]
  | cons head rest ih =>
    obtain ⟨headKey, headValue⟩ := head
    simp only [eachEntry, Traced.result_bind_eq_error, Traced.result_inField, mapError_eq_error, mapError_eq_ok, ih]
    refine ⟨fun h => ?_, fun h => ?_⟩
    · rcases h with ⟨cause, hcause, rfl⟩
        | ⟨done, hdone, ⟨before, key, value, after, cause, rfl, hbefore, h⟩ | ⟨_, -, ⟨⟩⟩⟩
      · exact ⟨[], headKey, headValue, rest, cause, rfl, by simp, hcause, rfl⟩
      · refine ⟨(headKey, headValue) :: before, key, value, after, cause, rfl, ?_, h⟩
        simpa using ⟨⟨done, hdone⟩, by simpa using hbefore⟩
    · obtain ⟨before, key, value, after, cause, hsplit, hbefore, hcause, rfl⟩ := h
      cases before with
      | nil =>
        cases hsplit
        exact .inl ⟨cause, hcause, rfl⟩
      | cons first before =>
        cases hsplit
        obtain ⟨done, hdone⟩ := hbefore _ List.mem_cons_self
        refine .inr ⟨done, hdone, .inl ⟨before, key, value, after, cause, rfl, ?_, hcause, rfl⟩⟩
        exact fun earlier hearlier => hbefore earlier (List.mem_cons_of_mem _ hearlier)

end JsonWire.Codec
