/-
  JsonWire.Proofs.Nesting — lists and records come back as a whole, however they are nested.

  A list is read exactly if each of its elements is, and holds what they are read as, in
  their order (`decode_list_eq_ok`); a record the same with its entries and their keys
  (`decode_record_eq_ok`). The failure of one is that of its first element or entry that
  is not read, at its place. So the list or the record of a faithful codec is faithful,
  and by induction every type that is nested of built-in ones
  (`builtIn_types_nest_whole`). Two records are equal only with their entries in the same
  order, so the order comes back as well.
-/

import JsonWire.Proofs.Collections
import JsonWire.Proofs.Faithful
import JsonWire.Sample.WireType

namespace JsonWire

variable {α β : Type}

namespace Codec

variable {codec : Codec α} {step : α → Traced β} {e : CodecError}

/-! ## Lists -/

theorem decode_list_eq_ok {items : List Json} {values : List α} :
    ((list codec).decode (.arr items)).result = .ok values
      ↔ List.Forall₂ (fun item value => (codec.decode item).result = .ok value) items values :=
  eachItem_eq_ok

theorem exists_decode_list_iff {items : List Json} :
    (∃ values, ((list codec).decode (.arr items)).result = .ok values)
      ↔ ∀ item ∈ items, ∃ value, (codec.decode item).result = .ok value := by
  simp only [decode_list_eq_ok, exists_forall₂_iff]

theorem decode_list_eq_error {items : List Json} :
    ((list codec).decode (.arr items)).result = .error e
      ↔ ∃ before item after cause, items = before ++ item :: after
          ∧ (∀ earlier ∈ before, ∃ value, (codec.decode earlier).result = .ok value)
          ∧ (codec.decode item).result = .error cause ∧ e = .inField (indexField before.length) cause := by
  show (eachItem codec.decode 0 items).result = .error e ↔ _
  simp only [eachItem_eq_error, Nat.zero_add]

theorem Faithful.list (h : codec.Faithful) : (Codec.list codec).Faithful := by
  intro values json hencode
  obtain ⟨items, hitems, ⟨⟩⟩ := Traced.result_bind_eq_ok.1 hencode
  have decodes := (eachItem_eq_ok.1 hitems).imp fun value item => h value item
  exact decode_list_eq_ok.2 decodes.flip

/-! ## Records -/

theorem keys_of_eachEntry {entries : List (String × α)} {out : List (String × β)}
    (h : (eachEntry step entries).result = .ok out) : Entries.keys out = Entries.keys entries := by
  induction eachEntry_eq_ok.1 h with
  | nil => rfl
  | cons hfirst hrest ih => exact congrArg₂ List.cons hfirst.1 (ih (eachEntry_eq_ok.2 hrest))

/-- An object has no key twice, so no entry of it replaces another. -/
theorem decode_record_eq_ok {members : List (String × Json)} {values : Record α}
    (nodup : (Entries.keys members).Nodup) :
    ((record codec).decode (.obj members)).result = .ok values
      ↔ List.Forall₂ (fun member entry => entry.1 = member.1 ∧ (codec.decode member.2).result = .ok entry.2)
          members values.entries := by
  rw [← eachEntry_eq_ok]
  constructor
  · intro h
    obtain ⟨entries, hentries, ⟨⟩⟩ := Traced.result_bind_eq_ok.1 h
    have hkeys : (Entries.keys entries).Nodup := keys_of_eachEntry hentries ▸ nodup
    rw [hentries, Record.ofList]
    exact congrArg Except.ok (Entries.ofList_of_nodup hkeys).symm
  · intro hentries
    refine Traced.result_bind_eq_ok.2 ⟨values.entries, hentries, ?_⟩
    simp [Record.ofList, Entries.ofList_of_nodup values.keys_nodup]

theorem exists_decode_record_iff {members : List (String × Json)} :
    (∃ values, ((record codec).decode (.obj members)).result = .ok values)
      ↔ ∀ member ∈ members, ∃ value, (codec.decode member.2).result = .ok value := by
  have each : (∃ out, (eachEntry codec.decode members).result = .ok out)
      ↔ ∀ member ∈ members, ∃ entry : String × α,
          entry.1 = member.1 ∧ (codec.decode member.2).result = .ok entry.2 := by
    simp only [eachEntry_eq_ok, exists_forall₂_iff]
  simpa [record, Traced.result_bind_eq_ok] using each

theorem decode_record_eq_error {members : List (String × Json)} :
    ((record codec).decode (.obj members)).result = .error e
      ↔ ∃ before key item after cause, members = before ++ (key, item) :: after
          ∧ (∀ earlier ∈ before, ∃ value, (codec.decode earlier.2).result = .ok value)
          ∧ (codec.decode item).result = .error cause ∧ e = .inField key cause := by
  rw [← eachEntry_eq_error]
  simp [record]

theorem Faithful.record (h : codec.Faithful) : (Codec.record codec).Faithful := by
  intro values json hencode
  obtain ⟨members, hmembers, ⟨⟩⟩ := Traced.result_bind_eq_ok.1 hencode
  have hkeys : (Entries.keys members).Nodup := keys_of_eachEntry hmembers ▸ values.keys_nodup
  have decodes := (eachEntry_eq_ok.1 hmembers).imp fun entry member hentry =>
    And.intro hentry.1.symm (h entry.2 member.2 hentry.2)
  exact (decode_record_eq_ok hkeys).2 decodes.flip

end Codec

/-! ## Nested types -/

namespace Sample

/-- Nested of built-in types only: no sample model occurs in it. -/
def WireType.BuiltIn : WireType → Prop
  | .box t | .list t | .record t => t.BuiltIn
  | .model _ => False
  | _ => True

theorem WireType.faithful_of_builtIn {t : WireType} (h : t.BuiltIn) : t.codec.Faithful := by
  induction t with
  | any => exact Codec.faithful_any
  | string => exact Codec.faithful_string
  | bool => exact Codec.faithful_bool
  | int t => exact Codec.faithful_int
  | float32 => exact Codec.faithful_float32
  | float64 => exact Codec.faithful_float64
  | duration => exact Codec.faithful_duration
  | box t ih => exact ih h
  | list t ih => exact (ih h).list
  | record t ih => exact (ih h).record
  | model m => exact h.elim

/-- A value of nested built-in types that has an encoding is what is read from it. A list is read element by
element and a record entry by entry, all of them or none, and the first that fails tells where. -/
theorem builtIn_types_nest_whole :
    (∀ t : WireType, t.BuiltIn → ∀ (value : t.Carrier) json,
      (t.codec.encode value).result = .ok json → (t.codec.decode json).result = .ok value)
    ∧ (∀ (α : Type) (codec : Codec α) (items : List Json),
      ((∃ values, ((Codec.list codec).decode (.arr items)).result = .ok values)
          ↔ ∀ item ∈ items, ∃ value, (codec.decode item).result = .ok value)
      ∧ (∀ values, ((Codec.list codec).decode (.arr items)).result = .ok values
          ↔ List.Forall₂ (fun item value => (codec.decode item).result = .ok value) items values)
      ∧ ∀ e, ((Codec.list codec).decode (.arr items)).result = .error e
          ↔ ∃ before item after cause, items = before ++ item :: after
            ∧ (∀ earlier ∈ before, ∃ value, (codec.decode earlier).result = .ok value)
            ∧ (codec.decode item).result = .error cause ∧ e = .inField s!"[{before.length}]" cause)
    ∧ ∀ (α : Type) (codec : Codec α) (members : List (String × Json)), (Entries.keys members).Nodup →
      ((∃ values, ((Codec.record codec).decode (.obj members)).result = .ok values)
          ↔ ∀ member ∈ members, ∃ value, (codec.decode member.2).result = .ok value)
      ∧ (∀ values, ((Codec.record codec).decode (.obj members)).result = .ok values
          ↔ List.Forall₂ (fun member entry => entry.1 = member.1 ∧ (codec.decode member.2).result = .ok entry.2)
            members values.entries)
      ∧ ∀ e, ((Codec.record codec).decode (.obj members)).result = .error e
          ↔ ∃ before key item after cause, members = before ++ (key, item) :: after
            ∧ (∀ earlier ∈ before, ∃ value, (codec.decode earlier.2).result = .ok value)
            ∧ (codec.decode item).result = .error cause ∧ e = .inField key cause := by
  refine ⟨fun t h => WireType.faithful_of_builtIn h, fun α codec items => ?_, fun α codec members nodup => ?_⟩
  · exact ⟨Codec.exists_decode_list_iff, fun values => Codec.decode_list_eq_ok, fun e => Codec.decode_list_eq_error⟩
  · exact ⟨Codec.exists_decode_record_iff, fun values => Codec.decode_record_eq_ok nodup,
      fun e => Codec.decode_record_eq_error⟩

/-- A record of lists, `b` before `a`, and one whose second entry holds a number that is too large. -/
theorem a_record_of_lists_comes_back_whole :
    let t := WireType.record (.list (.int .int8))
    let value : Record (List (IntOf .int8)) := ⟨[("b", [⟨1, by decide⟩, ⟨-1, by decide⟩]), ("a", [])], by decide⟩
    let json := Json.obj [("b", .arr [.num (.int 1 (by decide)), .num (.int (-1) (by decide))]), ("a", .arr [])]
    let wrong := [("b", Json.arr []), ("a", .arr [.num (.int 1 (by decide)), .num (.int 128 (by decide))])]
    t.BuiltIn ∧ (t.codec.encode value).result = .ok json ∧ (t.codec.decode json).result = .ok value
    ∧ (Entries.keys wrong).Nodup
    ∧ (t.codec.decode (.obj wrong)).result
      = .error (.inField "a" (.inField "[1]" (.unexpectedType "int8" "out-of-range number"))) := by
  intro t value json wrong
  obtain ⟨comesBack, lists, records⟩ := builtIn_types_nest_whole
  have encodes : (t.codec.encode value).result = .ok json := rfl
  have nodup : (Entries.keys wrong).Nodup := by decide
  refine ⟨trivial, encodes, comesBack t trivial value json encodes, nodup, ?_⟩
  refine ((records _ (.list (.int .int8)) wrong nodup).2.2 _).2 ⟨[("b", .arr [])], "a", _, [], _, rfl, ?_, ?_, rfl⟩
  · exact fun earlier hearlier => ⟨[], by rw [List.mem_singleton.1 hearlier]; rfl⟩
  · refine ((lists _ (.int .int8) _).2.2 _).2 ⟨[.num (.int 1 (by decide))], _, [], _, rfl, ?_, rfl, rfl⟩
    exact fun earlier hearlier => ⟨⟨1, by decide⟩, by rw [List.mem_singleton.1 hearlier]; rfl⟩

end Sample

end JsonWire
