/-
  JsonWire.Proofs.Settling — what was read can be written, and is read the same again.

  A codec `Settles` when every value that it reads has an encoding and is what the
  encoding is read as. A value may also hold a scalar that its domain would refuse, the
  default of a strict one; the encoding is then not read at all. `known` says which
  values hold none, and only of these the second half is asked.
-/

import JsonWire.Codec.Collections
import JsonWire.Domain
import JsonWire.Proofs.Collections
import JsonWire.Proofs.Durations
import JsonWire.Proofs.Lookup
import JsonWire.Proofs.Rounding

namespace JsonWire

variable {α β : Type}

namespace Codec

/-- The value has an encoding, which is read as the value if all in it is known. -/
def Keeps (codec : Codec α) (known : α → Prop) (value : α) : Prop :=
  ∃ json, (codec.encode value).result = .ok json ∧ (known value → (codec.decode json).result = .ok value)

def Settles (codec : Codec α) (known : α → Prop) : Prop :=
  ∀ raw value, (codec.decode raw).result = .ok value → codec.Keeps known value

/-- No value is written as null. -/
def NeverNull (codec : Codec α) : Prop := ∀ value, (codec.encode value).result ≠ .ok .null

variable {codec : Codec α} {known : α → Prop}

theorem Settles.of_keeps (h : ∀ value, codec.Keeps known value) : codec.Settles known := fun _ value _ => h value

theorem Keeps.mono {value : α} {other : α → Prop} (h : codec.Keeps known value) (imp : other value → known value) :
    codec.Keeps other value := by
  obtain ⟨json, hencode, hdecode⟩ := h
  exact ⟨json, hencode, fun hother => hdecode (imp hother)⟩

theorem Settles.mono {other : α → Prop} (h : codec.Settles known) (imp : ∀ value, other value → known value) :
    codec.Settles other :=
  fun raw value hraw => (h raw value hraw).mono (imp value)

/-! ## Scalars -/

theorem keeps_any {known : Json → Prop} (value : Json) : any.Keeps known value := ⟨value, rfl, fun _ => rfl⟩

theorem keeps_string {known : String → Prop} (value : String) : string.Keeps known value :=
  ⟨.str value, rfl, fun _ => rfl⟩

theorem keeps_bool {known : Bool → Prop} (value : Bool) : bool.Keeps known value :=
  ⟨.bool value, rfl, fun _ => rfl⟩

theorem holds_carrier {t : IntType} {n : Int} (h : t.Holds n) : t.carrier.Holds n := by
  obtain ⟨hlow, hhigh⟩ := h
  cases t <;> simp only [IntType.lowest, IntType.highest] at hlow hhigh <;>
    simp only [IntType.Holds, IntType.carrier, IntType.lowest, IntType.highest] <;> omega

theorem keeps_int {t : IntType} {known : IntOf t → Prop} (n : IntOf t) : (int t).Keeps known n := by
  refine ⟨_, rfl, fun _ => ?_⟩
  simp [int, expecting, wholeNumber?, holds_carrier n.holds, IntOf.ofInt?, n.holds]

theorem encodeFloat_of_isFinite {x : Double} (h : x.isFinite = true) :
    (encodeFloat x).result = .ok (.num (.float x h)) := by
  simp [encodeFloat, Json.ofDouble?, h]

theorem keeps_float64 {known : Double → Prop} {x : Double} (h : x.isFinite = true) : float64.Keeps known x :=
  ⟨_, encodeFloat_of_isFinite h, fun _ => rfl⟩

theorem isFinite_toDouble (n : Number) : n.toDouble.isFinite = true := by
  cases n with
  | int value fits => exact Double.isFinite_ofInt fits
  | float value finite => exact finite

theorem isFinite_of_number? {raw : Json} {x : Double} (h : number? raw = some x) : x.isFinite = true := by
  cases raw <;> cases h
  exact isFinite_toDouble _

theorem expecting_eq_ok {name : String} {read? : Json → Option α} {raw : Json} {value : α} :
    (expecting name read? raw).result = .ok value ↔ read? raw = some value := by
  unfold expecting
  split <;> simp [*]

theorem settles_float64 {known : Double → Prop} : float64.Settles known := by
  intro raw x hx
  exact keeps_float64 (isFinite_of_number? (expecting_eq_ok.1 hx))

theorem keeps_float32 {known : Single → Prop} {x : Single} (h : x.isFinite = true) : float32.Keeps known x := by
  have hwide := Single.isFinite_widen h
  refine ⟨_, encodeFloat_of_isFinite hwide, fun _ => ?_⟩
  simp [float32, expecting, number?, Number.toDouble, Single.narrow_widen h, h]

theorem settles_float32 {known : Single → Prop} : float32.Settles known := by
  intro raw x hx
  obtain ⟨wide, -, hx⟩ := Traced.result_bind_eq_ok.1 hx
  split at hx <;> cases hx
  rename_i hfinite
  exact keeps_float32 hfinite

theorem keeps_duration {known : Duration → Prop} (d : Duration) : duration.Keeps known d :=
  ⟨.str d.text, rfl, fun _ => decode_duration_text d⟩

theorem neverNull_string : string.NeverNull := nofun

theorem neverNull_duration : duration.NeverNull := nofun

theorem Keeps.imap {value : α} (h : codec.Keeps known value) (wrap : α → β) (unwrap : β → α)
    (hunwrap : unwrap (wrap value) = value) :
    (codec.imap wrap unwrap).Keeps (fun wrapped => known (unwrap wrapped)) (wrap value) := by
  obtain ⟨json, hencode, hdecode⟩ := h
  refine ⟨json, ?_, fun hknown => ?_⟩
  · simpa [Codec.imap, hunwrap] using hencode
  · have hvalue : known value := by simpa [hunwrap] using hknown
    simp [Codec.imap, hdecode hvalue]

end Codec

/-- Whether a scalar is a member is asked only when it is read. -/
theorem Domain.keeps_codec [Scalar α] (domain : Domain α) {scalar : α}
    (h : Scalar.codec.Keeps (fun _ => True) scalar) :
    domain.codec.Keeps (fun s => domain.admits s = true) scalar := by
  obtain ⟨json, hencode, hdecode⟩ := h
  refine ⟨json, hencode, fun hadmits => ?_⟩
  simp [Domain.codec, Domain.decode, hdecode trivial, hadmits]

/-! ## Collections -/

namespace Codec

variable {codec : Codec α} {known : α → Prop}

theorem Keeps.list {values : List α} (h : ∀ value ∈ values, codec.Keeps known value) :
    (Codec.list codec).Keeps (fun values => ∀ value ∈ values, known value) values := by
  have each : ∃ jsons, List.Forall₂ (fun value json => (codec.encode value).result = .ok json) values jsons
      ∧ ((∀ value ∈ values, known value) →
        List.Forall₂ (fun json value => (codec.decode json).result = .ok value) jsons values) := by
    induction values with
    | nil => exact ⟨[], .nil, fun _ => .nil⟩
    | cons value rest ih =>
      obtain ⟨json, hencode, hdecode⟩ := h value List.mem_cons_self
      obtain ⟨jsons, hencodes, hdecodes⟩ := ih fun value hvalue => h value (List.mem_cons_of_mem _ hvalue)
      refine ⟨json :: jsons, .cons hencode hencodes, fun hknown => ?_⟩
      obtain ⟨hhead, hrest⟩ := List.forall_mem_cons.1 hknown
      exact .cons (hdecode hhead) (hdecodes hrest)
  obtain ⟨jsons, hencodes, hdecodes⟩ := each
  have hencode := (eachItem_eq_ok (i := 0)).2 hencodes
  exact ⟨.arr jsons, by simp [Codec.list, hencode], fun hknown => eachItem_eq_ok.2 (hdecodes hknown)⟩

theorem Settles.list (h : codec.Settles known) :
    (Codec.list codec).Settles fun values => ∀ value ∈ values, known value := by
  intro raw values hraw
  refine Keeps.list fun value hvalue => ?_
  cases raw with
  | arr items =>
    obtain ⟨item, -, hitem⟩ := exists_of_mem_eachItem hraw hvalue
    exact h item value hitem
  | _ => cases hraw

theorem Keeps.record {values : Record α} (h : ∀ entry ∈ values.entries, codec.Keeps known entry.2) :
    (Codec.record codec).Keeps (fun values => ∀ entry ∈ values.entries, known entry.2) values := by
  have each : ∀ entries : List (String × α), (∀ entry ∈ entries, codec.Keeps known entry.2) →
      ∃ members, List.Forall₂ (fun entry (done : String × Json) => done.1 = entry.1
        ∧ (codec.encode entry.2).result = .ok done.2) entries members
      ∧ ((∀ entry ∈ entries, known entry.2) → List.Forall₂ (fun (entry : String × Json) done => done.1 = entry.1
        ∧ (codec.decode entry.2).result = .ok done.2) members entries) := by
    intro entries
    induction entries with
    | nil => exact fun _ => ⟨[], .nil, fun _ => .nil⟩
    | cons entry rest ih =>
      intro h
      obtain ⟨json, hencode, hdecode⟩ := h entry List.mem_cons_self
      obtain ⟨members, hencodes, hdecodes⟩ := ih fun entry hentry => h entry (List.mem_cons_of_mem _ hentry)
      refine ⟨(entry.1, json) :: members, .cons ⟨rfl, hencode⟩ hencodes, fun hknown => ?_⟩
      obtain ⟨hhead, hrest⟩ := List.forall_mem_cons.1 hknown
      exact .cons ⟨rfl, hdecode hhead⟩ (hdecodes hrest)
  obtain ⟨members, hencodes, hdecodes⟩ := each values.entries h
  have hencode := eachEntry_eq_ok.2 hencodes
  refine ⟨.obj members, by simp [Codec.record, hencode], fun hknown => ?_⟩
  have hdecode := eachEntry_eq_ok.2 (hdecodes hknown)
  simp [Codec.record, hdecode, Record.ofList, Entries.ofList_of_nodup values.keys_nodup]

theorem Settles.record (h : codec.Settles known) :
    (Codec.record codec).Settles fun values => ∀ entry ∈ values.entries, known entry.2 := by
  intro raw values hraw
  refine Keeps.record fun entry hentry => ?_
  cases raw with
  | obj members =>
    obtain ⟨decoded, hdecoded, ⟨⟩⟩ := Traced.result_bind_eq_ok.1 hraw
    obtain ⟨item, -, hitem⟩ := exists_of_mem_eachEntry hdecoded (Entries.mem_ofList hentry)
    exact h item entry.2 hitem
  | _ => cases hraw

/-! ## Codecs of what is always known -/

theorem settles_string : string.Settles fun _ => True := .of_keeps keeps_string

theorem settles_int {t : IntType} : (int t).Settles fun _ => True := .of_keeps keeps_int

theorem settles_list (h : codec.Settles fun _ => True) : (Codec.list codec).Settles fun _ => True :=
  h.list.mono fun _ _ _ _ => trivial

theorem settles_record (h : codec.Settles fun _ => True) : (Codec.record codec).Settles fun _ => True :=
  h.record.mono fun _ _ _ _ => trivial

theorem keeps_nil : (Codec.list codec).Keeps (fun _ => True) [] := ⟨.arr [], rfl, fun _ => rfl⟩

theorem keeps_empty : (Codec.record codec).Keeps (fun _ => True) .empty := ⟨.obj [], rfl, fun _ => rfl⟩

end Codec

end JsonWire
