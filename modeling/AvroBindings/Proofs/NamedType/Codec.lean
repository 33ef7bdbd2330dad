import AvroBindings.NamedType.Codec
import AvroBindings.Proofs.Convert.Typing

/-!
# Descriptors and named types are read back

The trees that descriptors and named types are written as are read as what was written.

## Main Statements

* `Descriptor.ofJson?_toJson` — a descriptor is read back, at once or held back.
* `NamedType.exists_tagged` — a named type is read back from its kind and its other members.
* `NamedType.wellFormed_toJson` — a named type is written as a well-formed tree.

## Design Notes

A kind is written before the content that it tells the meaning of, so nothing of what was
written has to be held back inside a descriptor.
-/

namespace AvroBindings

/-! ## Descriptors -/

namespace Descriptor

theorem listToJson_eq_map (types : List Descriptor) : listToJson types = types.map toJson := by
  induction types with
  | nil => rfl
  | cons ty types ih => rw [listToJson, ih, List.map_cons]

/-- An object of a kind and a content, as descriptors are written. -/
theorem ofJson?_pair (reading : Reading) (kind : String) (content : Json) :
    ofJson? reading (.object [("kind", .string kind), ("of", content)]) =
      assemble? reading kind content (fun _ => ofJson? reading content)
        (fun _ => ofItems? reading content) := by
  rw [ofJson?]
  simp [Json.soleMember?, Json.choice?, contentReading, ofContent?]

theorem ofList?_eq_some {reading : Reading} {types : List Descriptor}
    (h : ∀ ty ∈ types, ofJson? reading ty.toJson = some ty) :
    ofList? reading (listToJson types) = some types := by
  induction types with
  | nil => rfl
  | cons ty types ih =>
      rw [List.forall_mem_cons] at h
      rw [listToJson, ofList?, h.1, ih h.2]
      rfl

/-- **A descriptor is read back.** -/
theorem ofJson?_toJson (reading : Reading) (ty : Descriptor) :
    ofJson? reading ty.toJson = some ty := by
  induction ty using Descriptor.induction with
  | primitive kind =>
      rw [toJson, ofJson?_pair, assemble?, Json.choice?, Option.bind_some,
        Primitive.ofName?_name]
      rfl
  | optional inner ih => rw [toJson, ofJson?_pair, assemble?, ih, Option.map_some]
  | union alternatives ih =>
      rw [toJson, ofJson?_pair, assemble?, ofItems?, ofList?_eq_some ih, Option.map_some]
  | list item ih => rw [toJson, ofJson?_pair, assemble?, ih, Option.map_some]
  | map value ih => rw [toJson, ofJson?_pair, assemble?, ih, Option.map_some]
  | named name => rw [toJson, ofJson?_pair, assemble?, Json.text?, Option.map_some]

end Descriptor

/-! ## Named types -/

/-- Items that are read back one by one are read back together. -/
theorem mapM_map_eq_some {α β : Type} {write : α → β} {read : β → Option α} {items : List α}
    (h : ∀ x ∈ items, read (write x) = some x) : (items.map write).mapM read = some items := by
  induction items with
  | nil => rfl
  | cons x items ih =>
      rw [List.forall_mem_cons] at h
      rw [List.map_cons, List.mapM_cons, h.1, ih h.2]
      rfl

/-- **A field is read back**: without a default if it has none, and with null if its default is
null. -/
theorem Field.ofJson?_toJson {field : Field}
    (h : ∀ default ∈ field.default, default.wellFormed = true) :
    Field.ofJson? field.toJson = some field := by
  obtain ⟨name, type, default, doc⟩ := field
  cases default with
  | none =>
      cases doc <;>
        simp [toJson, ofJson?, docMember, docAmong?, docOf?, Json.soleMember?, Json.loneMember?,
          Json.text?, Descriptor.ofJson?_toJson]
  | some default =>
      have hdefault : default.collapse = default := Json.collapse_of_wellFormed (h default rfl)
      cases doc <;>
        simp [toJson, ofJson?, docMember, docAmong?, docOf?, Json.soleMember?, Json.loneMember?,
          Json.text?, Descriptor.ofJson?_toJson, hdefault]

/-- **A record is read back** from its members. -/
theorem Record.ofJson?_toMembers {record : Record}
    (h : ∀ field ∈ record.fields, ∀ default ∈ field.default, default.wellFormed = true) :
    Record.ofJson? (.object record.toMembers) = some record := by
  obtain ⟨name, fields, doc⟩ := record
  have hfields := mapM_map_eq_some fun field hfield => Field.ofJson?_toJson (h field hfield)
  dsimp only at hfields
  cases doc <;>
    simp [toMembers, ofJson?, docMember, docAmong?, docOf?, Json.soleMember?, Json.loneMember?,
      Json.text?, Json.items?, hfields]

/-- **An enum is read back** from its members. -/
theorem Enumeration.ofJson?_toMembers (enum : Enumeration) :
    Enumeration.ofJson? (.object enum.toMembers) = some enum := by
  obtain ⟨name, symbols, doc⟩ := enum
  have hsymbols : (symbols.map Json.string).mapM Json.text? = some symbols :=
    mapM_map_eq_some fun _ _ => rfl
  cases doc <;>
    simp [toMembers, ofJson?, docMember, docAmong?, docOf?, Json.soleMember?, Json.loneMember?,
      Json.text?, Json.items?, hsymbols]

namespace NamedType

/-- All defaults in a named type are well-formed trees. -/
def DefaultsWellFormed (type : NamedType) : Prop :=
  ∀ record, type = .record record → ∀ field ∈ record.fields, ∀ default ∈ field.default,
    default.wellFormed = true

/-- **A named type is read back** from its kind, which is written first, and its other
members. -/
theorem exists_tagged {type : NamedType} (h : type.DefaultsWellFormed) :
    ∃ kind members, type.toJson = .object (("type", .string kind) :: members) ∧
      isKind kind = true ∧ ofTagged? kind (.object members) = some type := by
  cases type with
  | record record =>
      refine ⟨"record", record.toMembers, rfl, rfl, ?_⟩
      rw [ofTagged?, Record.ofJson?_toMembers (h record rfl), Option.map_some]
  | enum enum =>
      refine ⟨"enum", enum.toMembers, rfl, rfl, ?_⟩
      rw [ofTagged?, Enumeration.ofJson?_toMembers, Option.map_some]

end NamedType

/-! ## Well-formed trees -/

theorem Descriptor.wellFormed_toJson (ty : Descriptor) : ty.toJson.wellFormed = true := by
  have hpair : ∀ (kind : String) (content : Json), content.wellFormed = true →
      (Json.object [("kind", .string kind), ("of", content)]).wellFormed = true := by
    intro kind content h
    simp [Json.wellFormed, Json.membersWellFormed, h]
  induction ty using Descriptor.induction with
  | primitive kind => exact hpair _ _ rfl
  | optional inner ih => exact hpair _ _ ih
  | union alternatives ih =>
      refine hpair _ _ (Json.wellFormed_array_iff.2 fun x hx => ?_)
      rw [listToJson_eq_map] at hx
      obtain ⟨ty, hty, rfl⟩ := List.mem_map.1 hx
      exact ih ty hty
  | list item ih => exact hpair _ _ ih
  | map value ih => exact hpair _ _ ih
  | named name => exact hpair _ _ rfl

theorem Field.wellFormed_toJson {field : Field}
    (h : ∀ default ∈ field.default, default.wellFormed = true) :
    field.toJson.wellFormed = true := by
  obtain ⟨name, type, default, doc⟩ := field
  have htype := Descriptor.wellFormed_toJson type
  cases default with
  | none =>
      cases doc <;> simp [toJson, docMember, Json.wellFormed, Json.membersWellFormed, htype]
  | some default =>
      have hdefault := h default rfl
      cases doc
        <;> simp [toJson, docMember, Json.wellFormed, Json.membersWellFormed, htype, hdefault]

/-- A named type is written as a well-formed tree. -/
theorem NamedType.wellFormed_toJson {type : NamedType} (h : type.DefaultsWellFormed) :
    type.toJson.wellFormed = true := by
  cases type with
  | record record =>
      obtain ⟨name, fields, doc⟩ := record
      have hfields : Json.itemsWellFormed (fields.map Field.toJson) = true := by
        rw [Json.itemsWellFormed_iff, List.forall_mem_map]
        exact fun field hfield => Field.wellFormed_toJson (h _ rfl field hfield)
      cases doc <;>
        simp [toJson, Record.toMembers, docMember, Json.wellFormed, Json.membersWellFormed,
          hfields]
  | enum enum =>
      obtain ⟨name, symbols, doc⟩ := enum
      have hsymbols : Json.itemsWellFormed (symbols.map Json.string) = true := by
        rw [Json.itemsWellFormed_iff, List.forall_mem_map]
        exact fun _ _ => rfl
      cases doc <;>
        simp [toJson, Enumeration.toMembers, docMember, Json.wellFormed, Json.membersWellFormed,
          hsymbols]

end AvroBindings
