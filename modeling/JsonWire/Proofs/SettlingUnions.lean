/-
  JsonWire.Proofs.SettlingUnions — a union settles when its cases do.

  A closed union puts its tag among the members of the payload. The case of the tag then
  reads the payload as before if it never looks at the key (`Codec.Objects`). An open
  union has no tag: the encoding of a payload has to be refused by all candidates before
  its own (`Case.Refuses`), or it would be read as another one's.
-/

import JsonWire.Proofs.Declared
import JsonWire.Proofs.Settling
import JsonWire.Proofs.SettlingShapes
import JsonWire.Proofs.Unions

namespace JsonWire

variable {α T U : Type}

/-! ## Cases -/

def Case.Settles (case : Case U) (known : U → Prop) : Prop :=
  case.codec.Settles fun payload => known (case.wrap payload)

/-- No encoding of the other case is read by this one. -/
def Case.Refuses (case other : Case U) : Prop :=
  ∀ payload json, (other.codec.encode payload).result = .ok json → ∃ e, (case.codec.decode json).result = .error e

/-- Whatever the codec writes is an object, so it can take a tag. -/
def Codec.WritesObjects (codec : Codec α) : Prop :=
  ∀ value json, (codec.encode value).result = .ok json → ∃ members, json = .obj members

/-- The codec writes objects, and reads them whatever they have under the key. -/
structure Codec.Objects (key : String) (codec : Codec α) : Prop where
  encode_obj : ∀ value json, (codec.encode value).result = .ok json → ∃ members, json = .obj members
  decode_congr : ∀ a b : List (String × Json), (∀ name, name ≠ key → a.lookup name = b.lookup name) →
    (codec.decode (.obj a)).result = (codec.decode (.obj b)).result

namespace Shape

theorem writesObjects_codec [Inhabited T] {shape : Shape T} : shape.codec.WritesObjects := by
  intro x json hx
  obtain ⟨members, -, rfl⟩ := encode_eq_ok.1 hx
  exact ⟨members, rfl⟩

theorem objects_codec [Inhabited T] {shape : Shape T} {key : String} (h : key ∉ shape.names) :
    shape.codec.Objects key where
  encode_obj := writesObjects_codec
  decode_congr a b hlookup := by
    have undeclared : ∀ field ∈ shape.fields, field.1 = key → field.2.kind = .constant := by
      intro field hfield hname
      exact absurd (hname ▸ List.mem_map_of_mem hfield) h
    exact result_patch_congr (agree_of_ne undeclared hlookup) default

end Shape

/-! ## Closed unions -/

namespace ClosedUnion

theorem settles_codec [Tagged U] {union : ClosedUnion U} {known : U → Prop}
    (laws : ∀ case ∈ union.cases, case.2.Coherent case.1 ∧ case.2.codec.Objects union.key)
    (settles : ∀ case ∈ union.cases, case.2.Settles known) : union.codec.Settles known := by
  intro raw value hraw
  obtain ⟨found, hfound, ⟨⟩⟩ := Traced.result_bind_eq_ok.1 hraw
  obtain ⟨tag, case, payload, -, hcase, hpayload, rfl⟩ := decode_eq_ok.1 hfound
  have hmem := Entries.mem_of_lookup hcase
  obtain ⟨coherent, objects⟩ := laws (tag, case) hmem
  obtain ⟨json, hencode, hdecode⟩ := settles (tag, case) hmem raw payload hpayload
  obtain ⟨members, rfl⟩ := objects.encode_obj payload json hencode
  refine ⟨.obj (union.withTag tag members), encode_eq_ok coherent hcase hencode, fun hknown => ?_⟩
  have hpeek : (union.peekTag (.obj (union.withTag tag members))).result = .ok tag :=
    congrArg Traced.result peekTag_withTag
  have hread := objects.decode_congr (union.withTag tag members) members fun name => lookup_withTag_of_ne
  have hagain := decode_eq_ok.2 ⟨tag, case, payload, hpeek, hcase, hread.trans (hdecode hknown), rfl⟩
  exact Traced.result_bind_eq_ok.2 ⟨_, hagain, rfl⟩

end ClosedUnion

/-! ## Open unions -/

namespace OpenUnion

theorem settles_codec [Tagged U] {union : OpenUnion U} {known : U → Prop}
    (coherent : ∀ candidate ∈ union.candidates, candidate.2.Coherent candidate.1)
    (settles : ∀ candidate ∈ union.candidates, candidate.2.Settles known)
    (refuses : union.candidates.Pairwise fun a b => a.2.Refuses b.2) : union.codec.Settles known := by
  intro raw value hraw
  obtain ⟨found, hfound, ⟨⟩⟩ := Traced.result_bind_eq_ok.1 hraw
  obtain ⟨before, candidate, case, after, payload, hsplit, -, hpayload, rfl⟩ := tryEach_eq_ok.1 hfound
  have hmem : (candidate, case) ∈ union.candidates := by simp [hsplit]
  obtain ⟨json, hencode, hdecode⟩ := settles (candidate, case) hmem raw payload hpayload
  have hlookup : union.candidates.lookup candidate = some case := Entries.lookup_of_mem union.names_nodup hmem
  refine ⟨json, ?_, fun hknown => ?_⟩
  · show (union.encode (case.wrap payload)).result = _
    rw [encode_wrap (coherent _ hmem) hlookup]
    exact hencode
  · have hearlier : ∀ earlier ∈ before, ∃ e, (earlier.2.codec.decode json).result = .error e := by
      rw [hsplit] at refuses
      intro earlier hbefore
      exact (List.pairwise_append.1 refuses).2.2 earlier hbefore _ List.mem_cons_self payload json hencode
    have hagain : (union.decode json).result = .ok ⟨candidate, case.wrap payload⟩ :=
      tryEach_eq_ok.2 ⟨before, candidate, case, after, payload, hsplit, hearlier, hdecode hknown, rfl⟩
    exact Traced.result_bind_eq_ok.2 ⟨_, hagain, rfl⟩

end OpenUnion

end JsonWire
