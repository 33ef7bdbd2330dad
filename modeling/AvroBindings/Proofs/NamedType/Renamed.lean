import AvroBindings.Proofs.Name.Stripped
import AvroBindings.Proofs.NamedType.Described

/-!
# Renamed types

Types with other names for the types that they refer to.  Taking a leading text off is such a
renaming: a schema is described with it as without it, but for the names.

## Main Definitions

* `Descriptor.rename`, `NamedType.rename` — a type, and a named type, with other names.

## Main Statements

* `Descriptor.ofNode_eq_map` — the descriptor of a node with a leading text taken off.
* `NamedType.ofSchema_stripped_iff` — the named type of a schema with a leading text taken off.

## Design Notes

Whether a bare name is a reference is decided by the full name, before anything is taken off it.
So the shape of a type, and whether there is one at all, does not depend on the leading text.
Nothing is asked of the renaming here: it may give two names one name.
-/

namespace AvroBindings

/-! ## Descriptors -/

namespace Descriptor

mutual

/-- A type with other names for what it refers to. -/
def rename (f : String → String) : Descriptor → Descriptor
  | .primitive kind => .primitive kind
  | .optional inner => .optional (inner.rename f)
  | .union alternatives => .union (renameAll f alternatives)
  | .list item => .list (item.rename f)
  | .map value => .map (value.rename f)
  | .named name => .named (f name)

/-- Several types with other names for what they refer to. -/
def renameAll (f : String → String) : List Descriptor → List Descriptor
  | [] => []
  | ty :: rest => ty.rename f :: renameAll f rest

end

variable (f : String → String)

/-- The companion of `rename` is a map over the list. -/
theorem renameAll_eq_map (types : List Descriptor) :
    renameAll f types = types.map (rename f) := by
  induction types with
  | nil => rfl
  | cons ty rest ih => rw [renameAll, ih, List.map_cons]

theorem rename_union (alternatives : List Descriptor) :
    (union alternatives).rename f = .union (alternatives.map (rename f)) := by
  rw [rename, renameAll_eq_map]

/-- Only the names that a type refers to are renamed. -/
theorem rename_congr {f g : String → String} {ty : Descriptor}
    (h : ∀ name ∈ ty.references, f name = g name) :
    ty.rename f = ty.rename g := by
  induction ty using Descriptor.induction with
  | primitive kind => rfl
  | optional inner ih => rw [rename, rename, ih h]
  | union alternatives ih =>
      rw [rename_union, rename_union]
      refine congrArg union (List.map_congr_left fun ty hty => ih ty hty fun name hname => ?_)
      exact h name (mem_referencesOfAll.2 ⟨ty, hty, hname⟩)
  | list item ih => rw [rename, rename, ih h]
  | map value ih => rw [rename, rename, ih h]
  | named name => rw [rename, rename, h name (List.mem_singleton_self name)]

@[simp] theorem isNull_rename (ty : Descriptor) : (ty.rename f).isNull = ty.isNull := by
  cases ty <;> rfl

@[simp] theorem admitsNull_rename (ty : Descriptor) :
    (ty.rename f).admitsNull = ty.admitsNull := by
  induction ty using Descriptor.induction with
  | union alternatives ih =>
      rw [rename_union, admitsNull, admitsNull, anyAdmitsNull_eq_any, anyAdmitsNull_eq_any,
        List.any_map]
      rw [Bool.eq_iff_iff, List.any_eq_true, List.any_eq_true]
      exact exists_congr fun ty => and_congr_right fun hmem => by rw [Function.comp, ih ty hmem]
  | _ => rfl

/-- A union of renamed members is the union of the members, renamed: which of them is null does
not change. -/
theorem ofMembers?_map_rename (types : List Descriptor) :
    ofMembers? (types.map (rename f)) = (ofMembers? types).map (rename f) := by
  match types with
  | [] => rfl
  | [only] => rfl
  | [a, b] =>
      rw [List.map_cons, List.map_cons, List.map_nil, ofMembers?, ofMembers?, isNull_rename,
        isNull_rename]
      split
      · rfl
      · split
        · rfl
        · rfl
  | a :: b :: c :: rest =>
      show some (union ((a :: b :: c :: rest).map (rename f))) =
        some ((union (a :: b :: c :: rest)).rename f)
      rw [rename_union]

/-- A bare name is a reference whatever is taken off it. -/
theorem ofReference_eq_map (lead name : String) :
    ofReference lead name = (ofReference "" name).map (rename (Name.stripPrefix lead)) := by
  unfold ofReference
  cases Primitive.ofAvroName? name with
  | some kind => rfl
  | none =>
      cases Name.isDotted name with
      | false => rfl
      | true =>
          show Except.ok (named (Name.stripPrefix lead name)) =
            Except.ok (named (Name.stripPrefix lead (Name.stripPrefix "" name)))
          rw [Name.stripPrefix_empty]

mutual

/-- **A node is described with a leading text taken off as it is without**, but for the
names. -/
theorem ofNode_eq_map (lead : String) :
    (node : Json) → ofNode lead node = (ofNode "" node).map (rename (Name.stripPrefix lead))
  | .string name => by rw [ofNode, ofNode, ofReference_eq_map]
  | .array nodes => by
      rw [ofNode, ofNode, ofNodes_eq_map lead nodes]
      cases ofNodes "" nodes with
      | error e => rfl
      | ok types =>
          simp only [Except.map, bind, Except.bind, ofMembers?_map_rename]
          cases ofMembers? types <;> rfl
  | .object members => by
      rw [ofNode, ofNode]
      cases (Json.object members).textMember? "type" with
      | none => rfl
      | some kind =>
          simp only [ofMember_eq_map lead _ _ members]
          split
          · rfl
          · split
            · cases ofMember "" _ "values" members <;> rfl
            · split
              · cases ofMember "" _ "items" members <;> rfl
              · cases Primitive.ofAvroName? kind <;> rfl
  | .null | .bool _ | .number _ => rfl

theorem ofNodes_eq_map (lead : String) :
    (nodes : List Json) →
    ofNodes lead nodes = (ofNodes "" nodes).map (List.map (rename (Name.stripPrefix lead)))
  | [] => rfl
  | node :: rest => by
      rw [ofNodes, ofNodes, ofNode_eq_map lead node, ofNodes_eq_map lead rest]
      cases ofNode "" node with
      | error e => rfl
      | ok ty => cases ofNodes "" rest <;> rfl

theorem ofMember_eq_map (lead : String) (refusal : SchemaError) (key : String) :
    (members : List (String × Json)) →
      ofMember lead refusal key members = (ofMember "" refusal key members).map
        (rename (Name.stripPrefix lead))
  | [] => rfl
  | (k, v) :: rest => by
      rw [ofMember, ofMember]
      split
      · exact ofNode_eq_map lead v
      · exact ofMember_eq_map lead refusal key rest

end

end Descriptor

/-! ## Fields and named types -/

/-- A field with other names for what its type refers to. -/
def Field.rename (f : String → String) (field : Field) : Field :=
  { field with type := field.type.rename f }

/-- A record with another name, and with other names for what its fields refer to. -/
def Record.rename (f : String → String) (record : Record) : Record :=
  { record with name := f record.name, fields := record.fields.map (Field.rename f) }

/-- An enum with another name. -/
def Enumeration.rename (f : String → String) (enum : Enumeration) : Enumeration :=
  { enum with name := f enum.name }

/-- A named type with another name, and with other names for what its fields refer to. -/
def NamedType.rename (f : String → String) : NamedType → NamedType
  | .record r => .record (r.rename f)
  | .enum e => .enum (e.rename f)

@[simp] theorem NamedType.name_rename (f : String → String) (type : NamedType) :
    (type.rename f).name = f type.name := by
  cases type <;> rfl

/-- Fields keep their names. -/
theorem Record.field?_rename (f : String → String) (record : Record) (name : String) :
    (record.rename f).field? name = (record.field? name).map (Field.rename f) := List.find?_map

/-- A field is described with a leading text taken off as it is without, but for the names. -/
theorem Field.ofSchema_eq_map (lead : String) (node : Json) :
    ofSchema lead node = (ofSchema "" node).map (rename (Name.stripPrefix lead)) := by
  unfold ofSchema
  cases node.textMember? "name" with
  | none => rfl
  | some name =>
      cases node.member? "type" with
      | none => rfl
      | some type =>
          simp only [Descriptor.ofNode_eq_map lead type]
          cases Descriptor.ofNode "" type <;> rfl

/-- **A schema is described with a leading text taken off exactly if it is without**, and then
alike but for the names. -/
theorem NamedType.ofSchema_stripped_iff {lead : String} {schema : Json} {type : NamedType} :
    ofSchema lead schema = .ok type ↔
      ∃ whole, ofSchema "" schema = .ok whole ∧
      type = whole.rename (Name.stripPrefix lead) := by
  have hfields : ∀ nodes fields,
      List.Forall₂ (fun node field => Field.ofSchema lead node = .ok field) nodes fields ↔
        ∃ wholes,
          List.Forall₂ (fun node field => Field.ofSchema "" node = .ok field) nodes wholes ∧
          fields = wholes.map (Field.rename (Name.stripPrefix lead)) := by
    refine fun nodes fields => forall₂_iff_exists_map fun node field => ?_
    rw [Field.ofSchema_eq_map, map_eq_ok_iff]
  simp only [ofSchema_eq_ok_iff, hfields, Name.stripPrefix_empty]
  constructor
  · rintro ⟨fullName, hname,
      ⟨kind, nodes, _, hkind, hrecord, hnodes, ⟨wholes, hwholes, rfl⟩, rfl⟩ |
      ⟨nodes, symbols, hkind, hnodes, hsymbols, rfl⟩⟩
    · exact ⟨_, ⟨fullName, hname,
        .inl ⟨kind, nodes, wholes, hkind, hrecord, hnodes, hwholes, rfl⟩⟩, rfl⟩
    · exact ⟨_, ⟨fullName, hname, .inr ⟨nodes, symbols, hkind, hnodes, hsymbols, rfl⟩⟩, rfl⟩
  · rintro ⟨_, ⟨fullName, hname, ⟨kind, nodes, wholes, hkind, hrecord, hnodes, hwholes, rfl⟩ |
      ⟨nodes, symbols, hkind, hnodes, hsymbols, rfl⟩⟩, rfl⟩
    · exact ⟨fullName, hname,
        .inl ⟨kind, nodes, _, hkind, hrecord, hnodes, ⟨wholes, hwholes, rfl⟩, rfl⟩⟩
    · exact ⟨fullName, hname, .inr ⟨nodes, symbols, hkind, hnodes, hsymbols, rfl⟩⟩

end AvroBindings
