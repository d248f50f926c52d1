/-
  JsonWire.Proofs.SampleStrict — sizes that are none.

  The sizes are the only strict domain of the sample types. A missing key leaves the
  default, and the default size is no member, so a value that was read may hold it, and
  then its encoding is refused (`PolarBear.missing_size_is_foreign`). This is the only
  way: every other size in a value that was read is a member
  (`foreign_scalars_were_left`).
-/

import JsonWire.Proofs.Refusals
import JsonWire.Proofs.SampleSettling

namespace JsonWire.Sample

/-! ## Sizes in values -/

theorem Size.known_or_holdsForeign (size : Size) :
    size.isKnown = true ∨ HoldsForeign Size.codec size "Size" [] := by
  cases hknown : size.isKnown with
  | true => exact .inl rfl
  | false => exact .inr ⟨String, _, Size.domain, size.text, rfl, rfl, hknown, .wrapped (fun _ => rfl) .here⟩

/-- The access of the size of a polar bear. -/
def PolarBear.sizeAccess : Access PolarBear := .required ⟨size, fun v b => { b with size := v }⟩ Size.codec

/-- The access of the size of a large box. -/
def LargeBox.sizeAccess : Access LargeBox := .required ⟨size, fun v b => { b with size := v }⟩ Size.codec

/-- The access of the box of a storage. -/
def Storage.boxAccess : Access Storage := .required ⟨box, fun v s => { s with box := v }⟩ StorageBox.codec

theorem PolarBear.holds_of_size {S : Type} [Scalar S] {domain : Domain S} {scalar : S} {bear : PolarBear}
    (h : Holds domain scalar Size.codec bear.size []) :
    Holds domain scalar PolarBear.codec bear [.field PolarBear.shape sizeAccess] :=
  .field PolarBear.disjoint_shape.uniform (List.mem_of_getElem? (i := 0) rfl) (.required _ _) h

theorem PolarBear.known_or_holdsForeign (bear : PolarBear) :
    bear.size.isKnown = true ∨ HoldsForeign PolarBear.codec bear "Size" [.field PolarBear.shape sizeAccess] :=
  bear.size.known_or_holdsForeign.imp_right fun hsize => hsize.lift holds_of_size

theorem LargeBox.known_or_holdsForeign (box : LargeBox) :
    box.size.isKnown = true ∨ HoldsForeign LargeBox.codec box "Size" [.field LargeBox.shape sizeAccess] := by
  have hmem : ("size", sizeAccess) ∈ LargeBox.shape.fields := List.mem_of_getElem? (i := 1) rfl
  refine box.size.known_or_holdsForeign.imp_right fun hsize => hsize.lift ?_
  exact .field LargeBox.disjoint_shape.uniform hmem (.required _ _)

theorem StorageBox.known_or_holdsForeign (box : StorageBox) :
    box.Known ∨ ∃ place, HoldsForeign StorageBox.codec box "Size" place := by
  cases box with
  | small box => exact .inl trivial
  | large box =>
    refine box.known_or_holdsForeign.imp_right fun hbox =>
      ⟨[.field LargeBox.shape LargeBox.sizeAccess], hbox.lift fun holds => ?_⟩
    have hcase : union.case? (tag (large box)) = some ⟨LargeBox, LargeBox.codec, .large, large?⟩ := rfl
    exact .case (fun case hcase => (StorageBox.lawful_cases case hcase).1) hcase rfl holds

theorem Bear.known_or_holdsForeign (bear : Bear) :
    bear.Known ∨ ∃ place, HoldsForeign Bear.codec bear "Size" place := by
  cases bear with
  | polar bear =>
    refine bear.known_or_holdsForeign.imp_right fun hbear =>
      ⟨[.field PolarBear.shape PolarBear.sizeAccess], hbear.lift fun holds => ?_⟩
    have hcase : union.case? (tag (polar bear)) = some ⟨PolarBear, PolarBear.codec, .polar, polar?⟩ := rfl
    exact .case (fun case hcase => (Bear.lawful_cases case hcase).1) hcase rfl holds
  | grizzly bear => exact .inl trivial

theorem Storage.known_or_holdsForeign (storage : Storage) :
    storage.box.Known ∨ ∃ place, HoldsForeign Storage.codec storage "Size" place := by
  have hmem : ("box", boxAccess) ∈ Storage.shape.fields := List.mem_of_getElem? (i := 0) rfl
  refine storage.box.known_or_holdsForeign.imp_right fun hbox => ?_
  obtain ⟨place, hbox⟩ := hbox
  exact ⟨.field Storage.shape boxAccess :: place, hbox.lift (.field Storage.disjoint_shape.uniform hmem (.required _ _))⟩

theorem Model.known_or_holdsForeign (m : Model) (value : m.schema.Carrier) :
    m.Known value ∨ ∃ place, HoldsForeign m.schema.codec value "Size" place := by
  cases m with
  | size => exact (Size.known_or_holdsForeign value).imp_right fun h => ⟨_, h⟩
  | largeBox => exact (LargeBox.known_or_holdsForeign value).imp_right fun h => ⟨_, h⟩
  | storageBox => exact StorageBox.known_or_holdsForeign value
  | storage => exact Storage.known_or_holdsForeign value
  | polarBear => exact (PolarBear.known_or_holdsForeign value).imp_right fun h => ⟨_, h⟩
  | bear => exact Bear.known_or_holdsForeign value
  | _ => exact .inl trivial

/-- A value of which some size is no member holds such a size at some place. -/
theorem WireType.known_or_holdsForeign (t : WireType) (value : t.Carrier) :
    t.Known value ∨ ∃ place, HoldsForeign t.codec value "Size" place := by
  induction t with
  | box t ih => exact ih value
  | list t ih => exact HoldsForeign.forall_or_list ih value
  | record t ih => exact HoldsForeign.forall_or_record ih value
  | model m => exact m.known_or_holdsForeign value
  | _ => exact .inl trivial

/-! ## What is let in -/

/-- A key that is missing leaves a size that is none, and the encoding of the bear is refused. -/
theorem PolarBear.missing_size_is_foreign :
    let bear : PolarBear := ⟨⟨""⟩⟩
    (PolarBear.codec.decode (.obj [])).result = .ok bear
    ∧ Holds Size.domain "" PolarBear.codec bear [.field PolarBear.shape sizeAccess] ∧ bear.size.isKnown = false
    ∧ (PolarBear.codec.encode bear).result = .ok (.obj [("size", .str "")])
    ∧ (PolarBear.codec.decode (.obj [("size", .str "")])).result
      = .error (.inField "size" (.notInDomain "Size" (.str ""))) := by
  intro bear
  have held : Holds Size.domain "" Size.codec bear.size [] := .wrapped (fun _ => rfl) .here
  exact ⟨rfl, holds_of_size held, rfl, rfl, rfl⟩

/-- A strict domain lets a scalar that is no member in only as what a default leaves where the document
has no member; where the document has the place, the scalar there is a member. If the encoding of a value
that was read is refused as outside a domain, then for such a scalar, and the error leads to it. All types
and all shapes over sheets are made so, and whatever size in them is not known was left in this way. -/
theorem foreign_scalars_were_left :
    (∀ {α : Type} (codec : Codec α) (raw : Json) (value : α), (codec.decode raw).result = .ok value →
      (∀ {S : Type} [Scalar S] (domain : Domain S) (scalar : S) (place : List Step), domain.membership = .strict →
        Holds domain scalar codec value place →
        (domain.contains scalar = true ∨ Left domain scalar raw place)
        ∧ (raw.Has place → domain.contains scalar = true))
      ∧ (codec.Made → ∀ json e name found, (codec.encode value).result = .ok json →
        (codec.decode json).result = .error e → e.rootCause = .notInDomain name found →
        ∃ place, List.Forall₂ Step.Named place e.fields ∧ HoldsForeign codec value name place
          ∧ LeftForeign raw name place))
    ∧ (∀ t : WireType, t.codec.Made ∧ ∀ raw value, (t.codec.decode raw).result = .ok value →
      t.Known value ∨ ∃ place, HoldsForeign t.codec value "Size" place ∧ LeftForeign raw "Size" place)
    ∧ ∀ (b : Blueprint) (level : Nat), (b.shape level).codec.Made ∧ ∀ raw x,
      ((b.shape level).codec.decode raw).result = .ok x → ∀ field ∈ (b.shape level).fields, ∀ (t : WireType) value,
      field.2.Carries x t.codec value → t.Known value
        ∨ ∃ place, HoldsForeign (b.shape level).codec x "Size" (.field (b.shape level) field.2 :: place)
          ∧ LeftForeign raw "Size" (.field (b.shape level) field.2 :: place) := by
  refine ⟨?_, ?_, ?_⟩
  · intro α codec raw value hraw
    constructor
    · intro S _ domain scalar place strict holds
      have origin := member_or_left strict hraw holds
      exact ⟨origin, fun has => origin.resolve_right fun left => left.not_has has⟩
    · intro made json e name found hencode hdecode hroot
      obtain ⟨place, hnamed, hheld⟩ := made.refusesForeign value json e name found hencode hdecode hroot
      exact ⟨place, hnamed, hheld, hheld.left hraw⟩
  · intro t
    refine ⟨t.made_codec, fun raw value hraw => ?_⟩
    refine (t.known_or_holdsForeign value).imp_right fun hforeign => ?_
    obtain ⟨place, hheld⟩ := hforeign
    exact ⟨place, hheld, hheld.left hraw⟩
  · intro b level
    refine ⟨b.made_codec level, fun raw x hraw field hfield t value carries => ?_⟩
    refine (t.known_or_holdsForeign value).imp_right fun hforeign => ?_
    obtain ⟨place, hvalue⟩ := hforeign
    have hheld := hvalue.lift (.field (b.uniform_shape level) hfield carries)
    exact ⟨place, hheld, hheld.left hraw⟩

/-- Of two bears the one with a size has a known one, and the encoding is refused for the other. -/
theorem second_bear_is_known :
    let bears := Json.arr [.obj [("type", .str "polar")], .obj [("size", .str "small"), ("type", .str "polar")]]
    let value : List Bear := [.polar ⟨⟨""⟩⟩, .polar ⟨⟨"small"⟩⟩]
    let codec := (WireType.list (.model .bear)).codec
    let written := Json.arr [.obj [("type", .str "polar"), ("size", .str "")],
      .obj [("type", .str "polar"), ("size", .str "small")]]
    (codec.decode bears).result = .ok value
    ∧ Size.domain.contains "small" = true
    ∧ (codec.encode value).result = .ok written
    ∧ ∃ e place, (codec.decode written).result = .error e ∧ e.fields = ["[0]", "size"]
      ∧ List.Forall₂ Step.Named place e.fields ∧ LeftForeign bears "Size" place := by
  intro bears value codec written
  obtain ⟨general, types, -⟩ := foreign_scalars_were_left
  have hread : (codec.decode bears).result = .ok value := rfl
  have hwritten : (codec.encode value).result = .ok written := rfl
  have hrefused : (codec.decode written).result
      = .error (.inField "[0]" (.inField "size" (.notInDomain "Size" (.str "")))) := rfl
  obtain ⟨reading, rereading⟩ := general codec bears value hread
  refine ⟨hread, ?_, hwritten, ?_⟩
  · have small : Holds Size.domain "small" Size.codec ⟨"small"⟩ [] := .wrapped (fun _ => rfl) .here
    have held : Holds Size.domain "small" (.list Bear.codec) value
        [.item 1, .field PolarBear.shape PolarBear.sizeAccess] := by
      refine .item rfl (.case (fun case hcase => (Bear.lawful_cases case hcase).1) rfl rfl ?_)
      exact PolarBear.holds_of_size small
    have has : bears.Has [.item 1, .field PolarBear.shape PolarBear.sizeAccess] :=
      .inside (.item rfl) (.inside (.field ⟨[], "size", [], rfl, rfl, nofun⟩) (.here _))
    exact (reading Size.domain "small" _ rfl held).2 has
  · obtain ⟨place, hnamed, -, hleft⟩ := rereading (types _).1 written _ "Size" (.str "") hwritten hrefused rfl
    exact ⟨_, place, hrefused, rfl, hnamed, hleft⟩

end JsonWire.Sample
