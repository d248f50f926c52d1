/-
  JsonWire.Entries — key-value pairs in insertion order.

  An association list is the member list of an object, the content of a record, the
  field list of a shape and the case list of a union. The first pair with a key is the
  one looked up. `insert` gives a key its last value in the place of its first
  occurrence, so a list grown by it has no key twice (`keys_insert_nodup`,
  `keys_ofList_nodup`).
-/

import JsonWire.Alike

namespace JsonWire.Entries

universe u

variable {α : Type u}

def keys (entries : List (String × α)) : List String := entries.map Prod.fst

/-- Replaces the value of a key that is there, otherwise adds the pair at the end. -/
def insert (key : String) (value : α) : List (String × α) → List (String × α)
  | [] => [(key, value)]
  | (k, v) :: rest => if k = key then (k, value) :: rest else (k, v) :: insert key value rest

/-- The pairs inserted one after another. -/
def ofList (pairs : List (String × α)) : List (String × α) :=
  pairs.foldl (fun entries pair => insert pair.1 pair.2 entries) []

def erase (key : String) (entries : List (String × α)) : List (String × α) :=
  entries.filter fun entry => entry.1 ≠ key

theorem keys_insert (key : String) (value : α) (entries : List (String × α)) :
    keys (insert key value entries)
      = if key ∈ keys entries then keys entries else keys entries ++ [key] := by
  induction entries with
  | nil => simp [insert, keys]
  | cons entry rest ih =>
    obtain ⟨k, v⟩ := entry
    simp only [keys] at ih
    by_cases h : k = key
    · simp [insert, keys, h]
    · have hne : ¬ key = k := fun e => h e.symm
      by_cases hk : key ∈ rest.map Prod.fst <;> simp [insert, keys, h, hne, hk, ih]

theorem keys_insert_nodup {entries : List (String × α)} (h : (keys entries).Nodup)
    (key : String) (value : α) : (keys (insert key value entries)).Nodup := by
  rw [keys_insert]
  split
  · exact h
  · rename_i hk
    exact List.nodup_append.2 ⟨h, by simp, fun a ha b hb => by
      rw [List.mem_singleton.1 hb]; exact fun e => hk (e ▸ ha)⟩

theorem keys_ofList_nodup (pairs : List (String × α)) : (keys (ofList pairs)).Nodup := by
  have grown : ∀ (pairs entries : List (String × α)), (keys entries).Nodup →
      (keys (pairs.foldl (fun es pair => insert pair.1 pair.2 es) entries)).Nodup := by
    intro pairs
    induction pairs with
    | nil => exact fun _ h => h
    | cons pair rest ih => exact fun es h => ih _ (keys_insert_nodup h _ _)
  exact grown pairs [] List.nodup_nil

theorem lookup_insert (key other : String) (value : α) (entries : List (String × α)) :
    (insert key value entries).lookup other
      = if other = key then some value else entries.lookup other := by
  induction entries with
  | nil =>
    by_cases h : other = key
    · simp [insert, h]
    · simp [insert, List.lookup_cons, h, beq_eq_false_iff_ne.2 h]
  | cons entry rest ih =>
    obtain ⟨k, v⟩ := entry
    by_cases ho : other = k
    · by_cases hk : k = key <;> simp [insert, ho, hk]
    · have hb := beq_eq_false_iff_ne.2 ho
      by_cases hk : k = key
      · subst hk
        simp [insert, List.lookup_cons, ho, hb]
      · simp [insert, List.lookup_cons, hk, hb, ih]

/-! ## Repeated keys -/

/-- The first key that stands among the keys before it or among those already seen. -/
def repeatedAfter? (seen : List String) : List String → Option String
  | [] => none
  | key :: rest => if key ∈ seen then some key else repeatedAfter? (key :: seen) rest

/-- The key at the least position whose key already occurred. -/
def firstRepeated? (keys : List String) : Option String := repeatedAfter? [] keys

theorem repeatedAfter?_eq_none_iff {seen keys : List String} :
    repeatedAfter? seen keys = none ↔ keys.Nodup ∧ ∀ key ∈ keys, key ∉ seen := by
  induction keys generalizing seen with
  | nil => simp [repeatedAfter?]
  | cons key rest ih =>
    by_cases h : key ∈ seen
    · simp [repeatedAfter?, h]
    · simp only [repeatedAfter?, h, if_false, ih, List.nodup_cons, List.mem_cons, not_or]
      constructor
      · rintro ⟨hn, hs⟩
        refine ⟨⟨fun hk => (hs key hk).1 rfl, hn⟩, fun k hk => ?_⟩
        rcases hk with rfl | hk
        · exact h
        · exact (hs k hk).2
      · rintro ⟨⟨hk, hn⟩, hs⟩
        exact ⟨hn, fun k hk' => ⟨fun e => hk (e ▸ hk'), hs k (.inr hk')⟩⟩

theorem firstRepeated?_eq_none_iff {keys : List String} :
    firstRepeated? keys = none ↔ keys.Nodup := by
  simp [firstRepeated?, repeatedAfter?_eq_none_iff]

end JsonWire.Entries
