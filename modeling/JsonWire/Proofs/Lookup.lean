/-
  JsonWire.Proofs.Lookup — what a list of entries holds under a key.
-/

import JsonWire.Entries

namespace JsonWire.Entries

universe u

variable {α : Type u} {entries : List (String × α)} {key : String} {value : α}

theorem mem_of_lookup (h : entries.lookup key = some value) : (key, value) ∈ entries := by
  obtain ⟨before, after, rfl, -⟩ := List.lookup_eq_some_iff.1 h
  simp

theorem lookup_eq_none_of_not_mem (h : key ∉ keys entries) : entries.lookup key = none := by
  refine List.lookup_eq_none_iff.2 fun entry hentry => bne_iff_ne.2 fun e => h ?_
  exact e ▸ List.mem_map_of_mem hentry

theorem lookup_eq_none_iff : entries.lookup key = none ↔ key ∉ keys entries := by
  refine ⟨fun h hkey => ?_, lookup_eq_none_of_not_mem⟩
  obtain ⟨entry, hentry, rfl⟩ := List.mem_map.1 hkey
  exact absurd rfl (bne_iff_ne.1 (List.lookup_eq_none_iff.1 h entry hentry))

theorem lookup_of_mem (nodup : (keys entries).Nodup) (h : (key, value) ∈ entries) :
    entries.lookup key = some value := by
  induction entries with
  | nil => cases h
  | cons head rest ih =>
    obtain ⟨hhead, hrest⟩ := List.nodup_cons.1 nodup
    rcases List.mem_cons.1 h with rfl | h
    · simp
    · have hne : key ≠ head.1 := fun e => hhead (e ▸ List.mem_map_of_mem h)
      rw [List.lookup_cons, beq_false_of_ne hne]
      exact ih hrest h

theorem lookup_append_of_none {before after : List (String × α)} (h : before.lookup key = none) :
    (before ++ after).lookup key = after.lookup key := by
  rw [List.lookup_append, h, Option.none_or]

/-- Leaving out keys leaves what the other keys hold. -/
theorem lookup_filter (kept : String → Bool) (entries : List (String × α)) (key : String) :
    (entries.filter fun entry => kept entry.1).lookup key = if kept key then entries.lookup key else none := by
  induction entries with
  | nil => simp
  | cons entry rest ih =>
    obtain ⟨name, value⟩ := entry
    by_cases hkey : key = name
    · subst hkey
      by_cases hkept : kept key = true
      · simp [hkept]
      · rw [List.filter_cons_of_neg (by simpa using hkept), ih, if_neg hkept, if_neg hkept]
    · by_cases hkept : kept name = true
      · rw [List.filter_cons_of_pos (by simpa using hkept), List.lookup_cons, List.lookup_cons, beq_false_of_ne hkey]
        exact ih
      · rw [List.filter_cons_of_neg (by simpa using hkept), List.lookup_cons, beq_false_of_ne hkey]
        exact ih

theorem not_mem_keys_erase (key : String) (entries : List (String × α)) : key ∉ keys (erase key entries) := by
  intro h
  obtain ⟨entry, hentry, hkey⟩ := List.mem_map.1 h
  have hne : entry.1 ≠ key := by simpa using (List.mem_filter.1 hentry).2
  exact hne hkey

theorem erase_of_not_mem {entries : List (String × α)} (h : key ∉ keys entries) : erase key entries = entries := by
  refine List.filter_eq_self.2 fun entry hentry => decide_eq_true ?_
  intro hkey
  exact h (hkey ▸ List.mem_map_of_mem hentry)

theorem lookup_erase_self (key : String) (entries : List (String × α)) :
    (erase key entries).lookup key = none :=
  lookup_eq_none_of_not_mem (not_mem_keys_erase key entries)

theorem lookup_erase_of_ne {other : String} (h : other ≠ key) (entries : List (String × α)) :
    (erase key entries).lookup other = entries.lookup other := by
  rw [erase, lookup_filter fun name => decide (name ≠ key)]
  simp [h]

/-! ## Entries inserted one after another -/

theorem mem_insert {entry : String × α} (h : entry ∈ insert key value entries) :
    entry = (key, value) ∨ entry ∈ entries := by
  induction entries with
  | nil => exact .inl (List.mem_singleton.1 h)
  | cons head rest ih =>
    rw [insert] at h
    split at h
    · rename_i hkey
      rcases List.mem_cons.1 h with rfl | h
      · exact .inl (by rw [hkey])
      · exact .inr (List.mem_cons_of_mem _ h)
    · rcases List.mem_cons.1 h with rfl | h
      · exact .inr List.mem_cons_self
      · exact (ih h).imp_right (List.mem_cons_of_mem _)

/-- Inserting adds no entry of its own. -/
theorem mem_ofList {pairs : List (String × α)} {entry : String × α} (h : entry ∈ ofList pairs) :
    entry ∈ pairs := by
  have grown : ∀ (pairs entries : List (String × α)),
      entry ∈ pairs.foldl (fun es pair => insert pair.1 pair.2 es) entries → entry ∈ entries ∨ entry ∈ pairs := by
    intro pairs
    induction pairs with
    | nil => exact fun _ h => .inl h
    | cons pair rest ih =>
      intro entries h
      rcases ih _ h with h | h
      · rcases mem_insert h with rfl | h
        · exact .inr List.mem_cons_self
        · exact .inl h
      · exact .inr (List.mem_cons_of_mem _ h)
  simpa using grown pairs [] h

theorem insert_of_not_mem (h : key ∉ keys entries) : insert key value entries = entries ++ [(key, value)] := by
  induction entries with
  | nil => rfl
  | cons head rest ih =>
    have hne : head.1 ≠ key := fun e => h (e ▸ List.mem_cons_self)
    rw [insert, if_neg hne, ih fun hrest => h (List.mem_cons_of_mem _ hrest)]
    rfl

/-- Without a repeated key nothing is replaced. -/
theorem ofList_of_nodup (h : (keys entries).Nodup) : ofList entries = entries := by
  have grown : ∀ (pairs before : List (String × α)), (keys (before ++ pairs)).Nodup →
      pairs.foldl (fun es pair => insert pair.1 pair.2 es) before = before ++ pairs := by
    intro pairs
    induction pairs with
    | nil => simp
    | cons pair rest ih =>
      intro before hnodup
      have hnot : pair.1 ∉ keys before := by
        rw [keys, List.map_append, List.map_cons, List.nodup_append] at hnodup
        exact fun hmem => hnodup.2.2 _ hmem _ List.mem_cons_self rfl
      rw [List.foldl_cons, insert_of_not_mem hnot]
      simpa using ih (before ++ [pair]) (by simpa using hnodup)
  exact grown entries [] h

end JsonWire.Entries
