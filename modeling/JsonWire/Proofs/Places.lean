/-
  JsonWire.Proofs.Places — where the content of a field lies.

  Every field has a `Place` in the value: a type of content and a lens on it. A constant
  has the place of nothing, which is independent of every other. What a field reads is a
  content that does not depend on the target (`Access.read`), and decoding it is writing
  that content at the place (`decode_eq`); what it shows is a function of the content
  alone (`encode_eq`).

  A shape is `Separate` when its places are lawful and any two of them are one and the
  same or independent. Several names may then stand for one place. It is `Uniform` when
  they also read it alike, and `Disjoint` when any two places are independent. That is so
  where the fields are the parts of the value, one each (`disjoint_of_row`).
-/

import JsonWire.Proofs.Lookup
import JsonWire.Proofs.Results
import JsonWire.Shape.Declaration
import Mathlib.Logic.Equiv.Defs

namespace JsonWire

variable {T C S F G R : Type}

/-! ## Places -/

namespace Lens

/-- The place of nothing. -/
def nowhere : Lens S Unit := ⟨fun _ => (), fun _ s => s⟩

/-- Writing at one place leaves what lies at the other. -/
def Spares (writer : Lens S F) (reader : Lens S G) : Prop := ∀ f s, reader.get (writer.set f s) = reader.get s

theorem Independent.spares {a : Lens S F} {b : Lens S G} (h : a.Independent b) : a.Spares b := h.get_set_right

theorem Independent.symm {a : Lens S F} {b : Lens S G} (h : a.Independent b) : b.Independent a :=
  ⟨h.get_set_right, h.get_set_left, fun g f s => (h.set_comm f g s).symm⟩

theorem lawful_nowhere : (nowhere : Lens S Unit).Lawful := ⟨fun _ _ => rfl, fun _ => rfl, fun _ _ _ => rfl⟩

theorem independent_nowhere (lens : Lens S G) : (nowhere : Lens S Unit).Independent lens :=
  ⟨fun _ _ => rfl, fun _ _ => rfl, fun _ _ _ => rfl⟩

/-! ### Places within places -/

/-- Whatever lies in independent places is independent. -/
theorem Independent.comp {F' G' : Type} {a : Lens S F} {b : Lens S G} (h : a.Independent b) (c : Lens F F')
    (d : Lens G G') : (a.comp c).Independent (b.comp d) where
  get_set_left g s := congrArg c.get (h.get_set_left _ s)
  get_set_right f s := congrArg d.get (h.get_set_right _ s)
  set_comm f g s := by
    show a.set (c.set f (a.get (b.set _ s))) (b.set (d.set g (b.get s)) s)
      = b.set (d.set g (b.get (a.set _ s))) (a.set (c.set f (a.get s)) s)
    rw [h.get_set_left, h.get_set_right, h.set_comm]

/-- Independent places of one thing stay so wherever the thing lies. -/
theorem Independent.within {G' : Type} {outer : Lens S F} (lawful : outer.Lawful) {c : Lens F G} {d : Lens F G'}
    (h : c.Independent d) : (outer.comp c).Independent (outer.comp d) where
  get_set_left g s := by
    show c.get (outer.get (outer.set _ s)) = c.get (outer.get s)
    rw [lawful.get_set, h.get_set_left]
  get_set_right f s := by
    show d.get (outer.get (outer.set _ s)) = d.get (outer.get s)
    rw [lawful.get_set, h.get_set_right]
  set_comm f g s := by
    show outer.set (c.set f (outer.get (outer.set _ s))) (outer.set (d.set g (outer.get s)) s)
      = outer.set (d.set g (outer.get (outer.set _ s))) (outer.set (c.set f (outer.get s)) s)
    rw [lawful.get_set, lawful.get_set, lawful.set_set, lawful.set_set, h.set_comm]

/-! ### Parts of a value -/

/-- All of a value, in another form. -/
def ofEquiv (form : T ≃ R) : Lens T R := ⟨form, fun r _ => form.symm r⟩

def first : Lens (F × R) F := ⟨Prod.fst, fun f row => (f, row.2)⟩

def rest : Lens (F × R) R := ⟨Prod.snd, fun r row => (row.1, r)⟩

theorem lawful_ofEquiv (form : T ≃ R) : (ofEquiv form).Lawful :=
  ⟨fun r _ => form.apply_symm_apply r, form.symm_apply_apply, fun _ _ _ => rfl⟩

theorem lawful_first : (first : Lens (F × R) F).Lawful := ⟨fun _ _ => rfl, fun _ => rfl, fun _ _ _ => rfl⟩

theorem lawful_rest : (rest : Lens (F × R) R).Lawful := ⟨fun _ _ => rfl, fun _ => rfl, fun _ _ _ => rfl⟩

theorem independent_first_rest : (first : Lens (F × R) F).Independent rest :=
  ⟨fun _ _ => rfl, fun _ _ => rfl, fun _ _ _ => rfl⟩

end Lens

structure Place (T : Type) : Type 1 where
  Content : Type
  lens : Lens T Content

namespace Place

/-- One and the same, or independent. -/
def Apart (p q : Place T) : Prop := p = q ∨ p.lens.Independent q.lens

theorem Apart.refl (p : Place T) : p.Apart p := .inl rfl

theorem Apart.symm {p q : Place T} (h : p.Apart q) : q.Apart p := by
  rcases h with rfl | h
  · exact .inl rfl
  · exact .inr h.symm

theorem get_eq_of_eq {p q : Place T} (h : p = q) {x y : T} (hp : p.lens.get x = p.lens.get y) :
    q.lens.get x = q.lens.get y := by
  subst h
  exact hp

end Place

/-! ## Contents -/

namespace Access

def place : Access T → Place T
  | .required lens _ => ⟨_, lens⟩
  | .optional lens _ => ⟨_, lens⟩
  | .nullable lens _ => ⟨_, lens⟩
  | .constant _ => ⟨Unit, .nowhere⟩

/-- What a field keeps in the value. -/
abbrev Content (access : Access T) : Type := access.place.Content

abbrev lens (access : Access T) : Lens T access.Content := access.place.lens

/-- The content that a member stands for. -/
def read : (access : Access T) → Json → Traced access.Content
  | .required _ codec, raw => codec.decode raw
  | .optional _ codec, raw => if raw.isNull then pure none else codec.decodeOptional raw
  | .nullable _ codec, raw => codec.decodeNullable raw
  | .constant _, _ => pure ()

/-- The presence that stands for a content. -/
def present : (access : Access T) → access.Content → Traced (Presence Json)
  | .required _ codec, content => do
    let json ← codec.encode content
    return .present json
  | .optional _ codec, content => codec.encodeOptional content
  | .nullable _ codec, content => codec.encodeNullable content
  | .constant literal, _ => pure (.present literal)

theorem decode_eq (access : Access T) (raw : Json) (target : T) :
    access.decode raw target = (do let content ← access.read raw; return access.lens.set content target) := by
  cases access with
  | required lens codec => rfl
  | optional lens codec =>
    cases hnull : raw.isNull <;> simp only [decode, read, hnull] <;> rfl
  | nullable lens codec => rfl
  | constant literal => rfl

theorem encode_eq (access : Access T) (x : T) : access.encode x = access.present (access.lens.get x) := by
  cases access <;> rfl

theorem lens_spares_of_constant {access : Access T} (h : access.kind = .constant) (lens : Lens T G) :
    access.lens.Spares lens := by
  cases access with
  | constant literal => exact fun _ _ => rfl
  | _ => cases h

theorem get_eq_of_constant {access : Access T} (h : access.kind = .constant) (x y : T) :
    access.lens.get x = access.lens.get y := by
  cases access with
  | constant literal => rfl
  | _ => cases h

end Access

/-- The codec of the values that a field holds. -/
inductive Access.Uses : {F : Type} → Access T → Codec F → Prop
  | required {F : Type} (lens : Lens T F) (codec : Codec F) : Uses (.required lens codec) codec
  | optional {F : Type} (lens : Lens T (Option F)) (codec : Codec F) : Uses (.optional lens codec) codec
  | nullable {F : Type} (lens : Lens T (Presence F)) (codec : Codec F) : Uses (.nullable lens codec) codec

namespace Access

variable {P : {G : Type} → Codec G → Prop} {codec : Codec F}

theorem forall_uses_required {lens : Lens T F} :
    (∀ ⦃G : Type⦄ (inner : Codec G), (required lens codec).Uses inner → P inner) ↔ P codec := by
  refine ⟨fun h => h codec (.required lens codec), fun h G inner huses => ?_⟩
  cases huses
  exact h

theorem forall_uses_optional {lens : Lens T (Option F)} :
    (∀ ⦃G : Type⦄ (inner : Codec G), (optional lens codec).Uses inner → P inner) ↔ P codec := by
  refine ⟨fun h => h codec (.optional lens codec), fun h G inner huses => ?_⟩
  cases huses
  exact h

theorem forall_uses_nullable {lens : Lens T (Presence F)} :
    (∀ ⦃G : Type⦄ (inner : Codec G), (nullable lens codec).Uses inner → P inner) ↔ P codec := by
  refine ⟨fun h => h codec (.nullable lens codec), fun h G inner huses => ?_⟩
  cases huses
  exact h

theorem forall_uses_constant {literal : Json} :
    ∀ ⦃G : Type⦄ (inner : Codec G), (constant literal : Access T).Uses inner → P inner := by
  intro G inner huses
  cases huses

end Access

/-! ## Separate shapes -/

namespace Shape

/-- Lawful places, any two of which are one and the same or independent. -/
structure Separate (shape : Shape T) : Prop where
  lawful : ∀ field ∈ shape.fields, field.2.lens.Lawful
  apart : ∀ a ∈ shape.fields, ∀ b ∈ shape.fields, a.2.place.Apart b.2.place

theorem separate_of_pairwise {shape : Shape T} (lawful : ∀ field ∈ shape.fields, field.2.lens.Lawful)
    (apart : shape.fields.Pairwise fun a b => a.2.place.Apart b.2.place) : shape.Separate where
  lawful := lawful
  apart _ ha _ hb :=
    List.Pairwise.forall_of_forall_of_flip (R := fun a b : String × Access T => a.2.place.Apart b.2.place)
      (fun _ _ => .refl _) apart (apart.imp .symm) ha hb

/-- Lawful places, any two of them independent. -/
structure Disjoint (shape : Shape T) : Prop where
  lawful : ∀ field ∈ shape.fields, field.2.lens.Lawful
  independent : shape.fields.Pairwise fun a b => a.2.lens.Independent b.2.lens

/-- The fields lie one behind the other in a row of contents: each at the head of what those before it
leave. A constant has no part in it. -/
inductive InRow : {R : Type} → Lens T R → List (String × Access T) → Prop
  | nil {R : Type} (row : Lens T R) : InRow row []
  | last {R : Type} {row : Lens T R} {name : String} {access : Access T} :
      access.place = ⟨R, row⟩ → InRow row [(name, access)]
  | cons {F R : Type} {row : Lens T (F × R)} {name : String} {access : Access T} {fields : List (String × Access T)} :
      access.place = ⟨F, row.comp .first⟩ → InRow (row.comp .rest) fields → InRow row ((name, access) :: fields)
  | constant {R : Type} {row : Lens T R} {name : String} {literal : Json} {fields : List (String × Access T)} :
      InRow row fields → InRow row ((name, .constant literal) :: fields)

section

variable {row : Lens T R} {fields : List (String × Access T)}

theorem InRow.lawful (h : InRow row fields) (lawful : row.Lawful) : ∀ field ∈ fields, field.2.lens.Lawful := by
  induction h with
  | nil row => nofun
  | @last R row name access hplace =>
    refine List.forall_mem_singleton.2 ?_
    show access.place.lens.Lawful
    rw [hplace]
    exact lawful
  | @cons F R row name access fields hplace _ ih =>
    refine List.forall_mem_cons.2 ⟨?_, ih (lawful.comp Lens.lawful_rest)⟩
    show access.place.lens.Lawful
    rw [hplace]
    exact lawful.comp Lens.lawful_first
  | constant _ ih => exact List.forall_mem_cons.2 ⟨Lens.lawful_nowhere, ih lawful⟩

/-- What is independent of the row is independent of all that lies in it. -/
theorem InRow.spared (h : InRow row fields) {lens : Lens T G} (independent : lens.Independent row) :
    ∀ field ∈ fields, lens.Independent field.2.lens := by
  induction h with
  | nil row => nofun
  | @last R row name access hplace =>
    refine List.forall_mem_singleton.2 ?_
    show lens.Independent access.place.lens
    rw [hplace]
    exact independent
  | @cons F R row name access fields hplace _ ih =>
    refine List.forall_mem_cons.2 ⟨?_, ih (independent.comp Lens.id Lens.rest)⟩
    show lens.Independent access.place.lens
    rw [hplace]
    exact independent.comp Lens.id Lens.first
  | constant _ ih => exact List.forall_mem_cons.2 ⟨(Lens.independent_nowhere lens).symm, ih independent⟩

theorem InRow.pairwise (h : InRow row fields) (lawful : row.Lawful) :
    fields.Pairwise fun a b => a.2.lens.Independent b.2.lens := by
  induction h with
  | nil row => exact .nil
  | last hplace => exact List.pairwise_singleton _ _
  | @cons F R row name access fields hplace hrest ih =>
    refine .cons ?_ (ih (lawful.comp Lens.lawful_rest))
    show ∀ field ∈ fields, access.place.lens.Independent field.2.lens
    rw [hplace]
    exact hrest.spared (Lens.independent_first_rest.within lawful)
  | constant _ ih => exact .cons (fun field _ => Lens.independent_nowhere field.2.lens) (ih lawful)

/-- Parts of a value, one for each field, are independent places. -/
theorem disjoint_of_row {shape : Shape T} (form : T ≃ R) (h : InRow (.ofEquiv form) shape.fields) : shape.Disjoint :=
  ⟨h.lawful (Lens.lawful_ofEquiv form), h.pairwise (Lens.lawful_ofEquiv form)⟩

end

theorem Disjoint.separate {shape : Shape T} (h : shape.Disjoint) : shape.Separate :=
  separate_of_pairwise h.lawful (h.independent.imp .inr)

/-- Lawful places; any two fields are one access under two names or lie at independent places. -/
structure Uniform (shape : Shape T) : Prop where
  lawful : ∀ field ∈ shape.fields, field.2.lens.Lawful
  same_or_independent : ∀ a ∈ shape.fields, ∀ b ∈ shape.fields, a.2 = b.2 ∨ a.2.lens.Independent b.2.lens

theorem Disjoint.uniform {shape : Shape T} (h : shape.Disjoint) : shape.Uniform where
  lawful := h.lawful
  same_or_independent _ ha _ hb :=
    List.Pairwise.forall_of_forall_of_flip
      (R := fun a b : String × Access T => a.2 = b.2 ∨ a.2.lens.Independent b.2.lens) (fun _ _ => .inl rfl)
      (h.independent.imp .inr) (h.independent.imp fun hab => .inr hab.symm) ha hb

theorem Uniform.separate {shape : Shape T} (h : shape.Uniform) : shape.Separate where
  lawful := h.lawful
  apart a ha b hb := by
    rcases h.same_or_independent a ha b hb with hsame | hindependent
    · exact .inl (congrArg Access.place hsame)
    · exact .inr hindependent

/-- A field with another access leaves the place of this one. -/
theorem Uniform.spares {shape : Shape T} (h : shape.Uniform) {a b : String × Access T} (ha : a ∈ shape.fields)
    (hb : b ∈ shape.fields) (hne : a.2 ≠ b.2) : a.2.lens.Spares b.2.lens :=
  ((h.same_or_independent a ha b hb).resolve_left hne).spares

end Shape

/-! ## The fields of a built shape -/

attribute [simp] Access.through Access.place

variable {name : String}

@[simp] theorem Shape.fields_build (declarations : List (Declaration T)) :
    (Shape.build name declarations).fields = Entries.ofList (declarations.flatMap Declaration.fields) := rfl

/-- What holds of all declared fields holds of those that are left when names are redeclared. -/
theorem Shape.forall_fields_build {declarations : List (Declaration T)} {P : String × Access T → Prop}
    (h : ∀ declaration ∈ declarations, ∀ field ∈ declaration.fields, P field) :
    ∀ field ∈ (Shape.build name declarations).fields, P field := by
  intro field hfield
  obtain ⟨declaration, hdeclaration, hfield⟩ := List.mem_flatMap.1 (Entries.mem_ofList hfield)
  exact h declaration hdeclaration field hfield

namespace Declaration

@[simp] theorem fields_required (codec : Codec F) (lens : Lens T F) :
    (required name codec lens).fields = [(name, .required lens codec)] := rfl

@[simp] theorem fields_optional (codec : Codec F) (lens : Lens T (Option F)) :
    (optional name codec lens).fields = [(name, .optional lens codec)] := rfl

@[simp] theorem fields_nullable (codec : Codec F) (lens : Lens T (Presence F)) :
    (nullable name codec lens).fields = [(name, .nullable lens codec)] := rfl

@[simp] theorem fields_constant (literal : Json) :
    (constant name literal : Declaration T).fields = [(name, .constant literal)] := rfl

@[simp] theorem fields_inherits (parent : Shape S) (lens : Lens T S) :
    (inherits parent lens).fields = parent.fields.map fun field => (field.1, field.2.through lens) := rfl

@[simp] theorem fields_nulls (policy : NullPolicy) : (nulls policy : Declaration T).fields = [] := rfl

end Declaration

end JsonWire
