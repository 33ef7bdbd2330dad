import AvroBindings.NamedType.OfSchema
import AvroBindings.Proofs.Descriptor.References

/-!
# Described schemas

Which schemas define a named type, and which one: its name, its kind, and where the references
of its fields come from.

## Main Statements

* `Field.ofSchema_eq_ok_iff`, `NamedType.ofSchema_eq_ok_iff` — when a description is given, and
  which.
* `NamedType.exists_part_of_field` — where the fields of a record come from.
* `NamedType.exists_nested_of_reference` — what a field refers to stands inside the schema.
-/

namespace AvroBindings

/-- A field is described exactly if it has a name and a type that has a descriptor. -/
theorem Field.ofSchema_eq_ok_iff {lead : String} {node : Json} {field : Field} :
    Field.ofSchema lead node = .ok field ↔
      ∃ name type ty, node.textMember? "name" = some name ∧ node.member? "type" = some type ∧
        Descriptor.ofNode lead type = .ok ty ∧
        field = ⟨name, ty, node.member? "default", node.textMember? "doc"⟩ := by
  unfold ofSchema
  cases node.textMember? "name" with
  | none => simp [throw, throwThe, MonadExceptOf.throw]
  | some name =>
      cases node.member? "type" with
      | none => simp [throw, throwThe, MonadExceptOf.throw]
      | some type =>
          simp only [bind_eq_ok_iff, pure, Except.pure, Except.ok.injEq, Option.some.injEq,
            exists_and_left, exists_eq_left', eq_comm (b := field)]

namespace NamedType

variable {lead : String} {schema : Json}

/-- **When a schema is described, and how**: it has a name, and it is a record with fields that
are described or an enum with symbols that are texts. -/
theorem ofSchema_eq_ok_iff {type : NamedType} :
    ofSchema lead schema = .ok type ↔
      ∃ fullName, schema.textMember? "name" = some fullName ∧
        ((∃ kind nodes fields, schema.textMember? "type" = some kind ∧
            (kind = "record" ∨ kind = "error") ∧
            schema.member? "fields" = some (.array nodes) ∧
            List.Forall₂ (fun node field => Field.ofSchema lead node = .ok field) nodes fields ∧
            type = .record ⟨Name.stripPrefix lead fullName, fields, schema.textMember? "doc"⟩) ∨
          ∃ nodes symbols, schema.textMember? "type" = some "enum" ∧
            schema.member? "symbols" = some (.array nodes) ∧
            List.Forall₂ (fun node symbol => Enumeration.symbolOf node = .ok symbol) nodes
              symbols ∧
            type =
              .enum ⟨Name.stripPrefix lead fullName, symbols, schema.textMember? "doc"⟩) := by
  have hitems : ∀ (key : String) (nodes : List Json),
      (schema.member? key).bind Json.items? = some nodes ↔
        schema.member? key = some (.array nodes) := by
    intro key nodes
    rw [Option.bind_eq_some_iff]
    constructor
    · rintro ⟨member, hmember, hnodes⟩
      cases member with
      | array items => rwa [← Option.some.inj hnodes]
      | _ => contradiction
    · exact fun h => ⟨_, h, rfl⟩
  unfold ofSchema
  simp only [← hitems]
  cases schema.textMember? "name" with
  | none => simp [throw, throwThe, MonadExceptOf.throw]
  | some fullName =>
      simp only [Option.some.injEq, exists_eq_left']
      cases schema.textMember? "type" with
      | none => simp [throw, throwThe, MonadExceptOf.throw]
      | some kind =>
          simp only [Option.getD_some, Option.some.injEq, exists_and_left, exists_eq_left',
            Bool.or_eq_true, decide_eq_true_eq]
          by_cases hrecord : kind = "record" ∨ kind = "error"
          · have henum : kind ≠ "enum" := by
              rcases hrecord with rfl | rfl <;> decide
            simp only [hrecord, henum, if_true, true_and, false_and, or_false]
            cases (schema.member? "fields").bind Json.items? with
            | none => simp [throw, throwThe, MonadExceptOf.throw]
            | some nodes =>
                simp only [bind_eq_ok_iff, mapM_eq_ok_iff, pure, Except.pure, Except.ok.injEq,
                  Option.some.injEq, exists_eq_left', eq_comm (b := type)]
          · simp only [hrecord, if_false, false_and, false_or]
            by_cases henum : kind = "enum"
            · simp only [henum, if_true, true_and]
              cases (schema.member? "symbols").bind Json.items? with
              | none => simp [throw, throwThe, MonadExceptOf.throw]
              | some nodes =>
                  simp only [bind_eq_ok_iff, mapM_eq_ok_iff, pure, Except.pure, Except.ok.injEq,
                    Option.some.injEq, exists_eq_left', eq_comm (b := type)]
            · simp [henum, throw, throwThe, MonadExceptOf.throw]

/-- A described type has the name of its schema, without the leading text. -/
theorem name_of_ofSchema {type : NamedType} (h : ofSchema lead schema = .ok type) :
    ∃ fullName, schema.textMember? "name" = some fullName ∧
    type.name = Name.stripPrefix lead fullName := by
  obtain ⟨fullName, hname, hkind⟩ := ofSchema_eq_ok_iff.1 h
  refine ⟨fullName, hname, ?_⟩
  rcases hkind with ⟨kind, nodes, fields, -, -, -, -, rfl⟩ | ⟨nodes, symbols, -, -, -, rfl⟩
  · rfl
  · rfl

/-- Only a definition is described. -/
theorem isDefinition_of_ofSchema {type : NamedType} (h : ofSchema lead schema = .ok type) :
    Schema.IsDefinition schema := by
  obtain ⟨fullName, -, ⟨kind, -, -, hkind, hrecord, -⟩ | ⟨-, -, hkind, -⟩⟩ :=
    ofSchema_eq_ok_iff.1 h
  · refine ⟨kind, hkind, ?_⟩
    rcases hrecord with rfl | rfl <;> decide
  · exact ⟨"enum", hkind, by decide⟩

/-- The fields of a record are described from the types at its type positions. -/
theorem exists_part_of_field {record : Record} (h : ofSchema lead schema = .ok (.record record))
    {field : Field} (hfield : field ∈ record.fields) (scope : String) :
    ∃ part ∈ Schema.parts scope schema, Descriptor.ofNode lead part.2 = .ok field.type := by
  obtain ⟨fullName, -, ⟨kind, nodes, fields, hkind, hrecord, hnodes, hfields, hrecord'⟩ |
      ⟨_, _, -, -, -, henum⟩⟩ := ofSchema_eq_ok_iff.1 h
  · obtain rfl := NamedType.record.inj hrecord'
    obtain ⟨node, hnode, hdescribed⟩ := exists_left_of_forall₂ hfields hfield
    obtain ⟨name, type, ty, -, htype, hty, rfl⟩ := Field.ofSchema_eq_ok_iff.1 hdescribed
    have hmem : type ∈ Schema.fieldTypes nodes := List.mem_filterMap.2 ⟨node, hnode, htype⟩
    rw [Json.textMember?_eq_some_iff] at hkind
    cases schema with
    | object members =>
        rw [Json.member?] at hkind hnodes
        have hrecordKind : Schema.isRecordKind kind = true := by
          simpa [Schema.isRecordKind] using hrecord
        refine ⟨(Name.space (Schema.declaredName scope members), type), ?_, hty⟩
        simp only [Schema.parts, hkind, hrecordKind, hnodes, if_true]
        exact List.mem_map_of_mem hmem
    | _ => contradiction
  · contradiction

/-- **What a field refers to stands inside the schema**, with the leading text and with a dot.
The definitions inside must have texts as their names. -/
theorem exists_nested_of_reference {record : Record}
    (h : ofSchema lead schema = .ok (.record record))
    (hnamed : ∀ inner, Schema.Nested inner schema → Schema.IsDefinition inner →
      ∃ full, inner.textMember? "name" = some full)
    {field : Field} (hfield : field ∈ record.fields) {name : String}
    (hname : name ∈ field.type.references) :
    ∃ inner full, Schema.Nested inner schema ∧ Schema.StandsFor inner full ∧
      Name.isDotted full = true ∧ name = Name.stripPrefix lead full := by
  obtain ⟨part, hpart, hty⟩ := exists_part_of_field h hfield ""
  obtain ⟨scope, inner, full, hposition, hstands, hdotted, hstrip⟩ :=
    Descriptor.exists_position_of_reference (fun scope' inner hposition =>
      hnamed inner ⟨"", scope', part, hpart, hposition⟩) hty hname
  exact ⟨inner, full, ⟨"", scope, part, hpart, hposition⟩, hstands, hdotted, hstrip⟩

end NamedType

end AvroBindings
