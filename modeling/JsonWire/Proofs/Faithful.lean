/-
  JsonWire.Proofs.Faithful — what a codec writes, it reads back.

  A codec is `Faithful` when every encoding that it makes is read as the value it was
  made of. This is about all values that have an encoding, read or not; `Settles` is
  about those that were read. A shape is faithful when its fields are and a value is no
  more than its contents (`Shape.faithful_codec`).
-/

import JsonWire.Proofs.RoundTrip
import JsonWire.Proofs.Settling

namespace JsonWire

variable {α T F : Type}

namespace Codec

variable {codec : Codec α}

/-- Every encoding is read as the value it was made of. -/
def Faithful (codec : Codec α) : Prop :=
  ∀ value json, (codec.encode value).result = .ok json → (codec.decode json).result = .ok value

theorem Faithful.of_encodes
    (h : ∀ value json, (codec.encode value).result = .ok json → codec.Keeps (fun _ => True) value) :
    codec.Faithful := by
  intro value json hencode
  obtain ⟨kept, hkept, hdecode⟩ := h value json hencode
  obtain rfl : kept = json := Except.ok.inj (hkept.symm.trans hencode)
  exact hdecode trivial

theorem Faithful.of_keeps (h : ∀ value, codec.Keeps (fun _ => True) value) : codec.Faithful :=
  .of_encodes fun value _ _ => h value

theorem faithful_any : any.Faithful := .of_keeps keeps_any

theorem faithful_string : string.Faithful := .of_keeps keeps_string

theorem faithful_bool : bool.Faithful := .of_keeps keeps_bool

theorem faithful_int {t : IntType} : (int t).Faithful := .of_keeps keeps_int

theorem faithful_duration : duration.Faithful := .of_keeps keeps_duration

theorem isFinite_of_encodeFloat {x : Double} {json : Json} (h : (encodeFloat x).result = .ok json) :
    x.isFinite = true := by
  by_cases hfinite : x.isFinite = true
  · exact hfinite
  · simp [encodeFloat, Json.ofDouble?, hfinite] at h

theorem faithful_float64 : float64.Faithful :=
  .of_encodes fun _ _ h => keeps_float64 (isFinite_of_encodeFloat h)

theorem faithful_float32 : float32.Faithful :=
  .of_encodes fun _ _ h => keeps_float32 (Single.isFinite_of_widen (isFinite_of_encodeFloat h))

end Codec

/-! ## Shapes -/

/-- What the field writes it reads back, and where it would write nothing the start has nothing. -/
def Access.Faithful (start : T) : Access T → Prop
  | .required _ codec => codec.Faithful
  | .optional lens codec => codec.Faithful ∧ codec.NeverNull ∧ lens.get start = none
  | .nullable lens codec => codec.Faithful ∧ codec.NeverNull ∧ lens.get start = .absent
  | .constant _ => True

namespace Access.Faithful

variable {start x : T} {access : Access T} {slot : Presence Json}

theorem roundTrips (h : access.Faithful start) (hslot : (access.encode x).result = .ok slot) :
    access.RoundTrips (access.lens.get x) := by
  cases access with
  | required lens codec =>
    obtain ⟨json, hencode, -⟩ := Traced.result_bind_eq_ok.1 hslot
    exact ⟨json, hencode, h _ json hencode⟩
  | optional lens codec =>
    intro value hvalue
    change lens.get x = some value at hvalue
    simp only [encode, hvalue, Codec.encodeOptional] at hslot
    obtain ⟨json, hencode, -⟩ := Traced.result_bind_eq_ok.1 hslot
    exact ⟨json, hencode, h.1 value json hencode⟩
  | nullable lens codec =>
    intro value hvalue
    change lens.get x = .present value at hvalue
    simp only [encode, hvalue, Codec.encodeNullable, Presence.traverse] at hslot
    obtain ⟨json, hencode, -⟩ := Traced.result_bind_eq_ok.1 hslot
    exact ⟨json, hencode, h.1 value json hencode⟩
  | constant literal => trivial

theorem not_presentNull (h : access.Faithful start) (content : access.Content) : ¬ access.PresentNull content := by
  intro hnull
  cases access with
  | required lens codec => exact hnull
  | optional lens codec =>
    obtain ⟨value, -, hvalue⟩ := hnull
    exact h.2.1 value hvalue
  | nullable lens codec =>
    obtain ⟨value, -, hvalue⟩ := hnull
    exact h.2.1 value hvalue
  | constant literal => exact hnull

theorem startsAbsent (h : access.Faithful start) {content : access.Content} (habsent : access.Absent content) :
    access.Absent (access.lens.get start) := by
  cases access with
  | required lens codec => exact habsent.elim
  | optional lens codec => exact h.2.2
  | nullable lens codec => exact h.2.2
  | constant literal => exact habsent.elim

end Access.Faithful

/-- A shape whose fields are faithful and hold all of a value reads back what it writes. -/
theorem Shape.faithful_codec [Inhabited T] {shape : Shape T} (separate : shape.Separate)
    (each : ∀ field ∈ shape.fields, field.2.Faithful default)
    (whole : ∀ x y : T, (∀ field ∈ shape.fields, field.2.lens.get x = field.2.lens.get y) → x = y) :
    shape.codec.Faithful := by
  intro x json hencode
  obtain ⟨members, hmembers, -⟩ := encode_eq_ok.1 hencode
  have roundTrips : ∀ field ∈ shape.fields, field.2.RoundTrips (field.2.lens.get x) := by
    intro field hfield
    obtain ⟨slot, hslot, -⟩ := lookup_encodeFields hmembers shape.names_nodup field hfield
    exact (each field hfield).roundTrips hslot
  obtain ⟨y, hy, contents⟩ := exists_decode_of_encode separate hencode roundTrips
    fun field hfield => (each field hfield).not_presentNull _
  have same := get_eq_of_startsAbsent (fun field hfield => (each field hfield).startsAbsent) contents
  obtain rfl : y = x := whole y x same
  exact hy

end JsonWire
