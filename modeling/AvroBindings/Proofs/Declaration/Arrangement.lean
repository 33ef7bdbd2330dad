import Mathlib.Data.List.Perm.Basic
import AvroBindings.Proofs.Declaration.Annotation

/-!
# How the fields of a record are arranged

The part of the source of a record that declares its fields, as one list of lines over the
fields.

## Main Definitions

* `Record.opening`, `Record.fieldSection` — the lines that open the class, and the lines of its
  fields.
* `Record.bare`, `Record.defaulted` — the fields without a default, and those with one together
  with it.
* `Record.parted` — the fields in the order in which a dataclass declares them.

## Main Statements

* `Record.lines_eq` — the lines of a record: its opening, its documentation and its fields.
* `Record.fieldSection_dataclass`, `Record.fieldSection_typedDict` — the fields in the two
  styles.
* `Record.parted_perm`, `Record.pairwise_parted` — no field is lost or repeated, and none
  without a default comes late.
* `Record.source_arranged` — the source of a record with its fields in their order.

## Design Notes

A dataclass parts the fields by their defaults and a typed dictionary does not.  A declaration
carries its comment with it, so that the parting moves whole declarations, and the order inside
each part stays that of the schema.
-/

namespace AvroBindings

/-! ## Declarations -/

namespace Field

/-- The comment of a field. -/
def comments (field : Field) : List String :=
  (field.doc.map (Python.commentLines bodyIndent)).getD []

/-- A dataclass declares a field with its default. -/
theorem declaration_dataclass (owner : String) (field : Field) :
    field.declaration owner .dataclass =
      match field.default with
      | some value =>
          ⟨field.comments ++ [field.typed owner ++ " = " ++ value.defaultText], true⟩
      | none => ⟨field.comments ++ [field.typed owner], false⟩ := rfl

/-- A typed dictionary declares it without. -/
theorem declaration_typedDict (owner : String) (field : Field) :
    field.declaration owner .typedDict = ⟨field.comments ++ [field.typed owner], false⟩ := rfl

end Field

/-! ## Records -/

/-- More lines come behind those before them. -/
theorem sourceOf_append (imports : Imports) (lines more : List String) :
    sourceOf imports (lines ++ more) = sourceOf imports lines ++
      String.join (more.map (· ++ "\n")) := by
  rw [sourceOf, sourceOf, List.map_append, String.join_append, String.append_assoc]

namespace Record

/-- The lines that open the class. -/
def opening (record : Record) : Style → List String
  | .dataclass => ["@dataclass", record.classLine .dataclass]
  | .typedDict => [record.classLine .typedDict]

/-- The lines that declare the fields. -/
def fieldSection (record : Record) (style : Style) : List String :=
  fieldLines (Field.declareAll style record.fields (Imports.start record.name)).1

/-- The fields without a default, in order. -/
def bare (record : Record) : List Field :=
  record.fields.filter fun field => field.default.isNone

/-- The fields with a default, in order, each with its default. -/
def defaulted (record : Record) : List (Field × Json) :=
  record.fields.filterMap fun field => field.default.map (field, ·)

/-- The fields in the order in which a dataclass declares them. -/
def parted (record : Record) : List Field := record.bare ++ record.defaulted.map Prod.fst

theorem fieldSection_eq (record : Record) (style : Style) :
    record.fieldSection style =
      fieldLines (record.fields.map (Field.declaration record.name style)) := by
  rw [fieldSection, Field.declareAll_eq]
  rfl

/-- The lines of a record: its opening, its documentation and its fields, or a statement that
does nothing. -/
theorem lines_eq (record : Record) (style : Style) :
    record.lines style = record.opening style ++
      (let body := record.docLines ++ record.fieldSection style
        if body.isEmpty then [bodyIndent ++ "pass"] else body) := by
  rw [fieldSection_eq]
  cases style <;> rfl

/-- The lines of a record with documentation or fields. -/
theorem lines_eq_of_ne_nil {record : Record} {style : Style}
    (h : record.docLines ++ record.fieldSection style ≠ []) :
    record.lines style = record.opening style ++
      (record.docLines ++ record.fieldSection style) := by
  rw [lines_eq]
  dsimp only
  rw [if_neg (by rwa [List.isEmpty_iff])]

theorem mem_lines_of_mem_fieldSection {record : Record} {style : Style} {line : String}
    (h : line ∈ record.fieldSection style) : line ∈ record.lines style := by
  have hbody : line ∈ record.docLines ++ record.fieldSection style := List.mem_append_right _ h
  rw [lines_eq_of_ne_nil (List.ne_nil_of_mem hbody)]
  exact List.mem_append_right _ hbody

/-! ### The two styles -/

theorem lines_bare (owner : String) (fields : List Field) :
    ((fields.map (Field.declaration owner .dataclass)).filter fun d => !d.defaulted).flatMap
        FieldDeclaration.lines =
      (fields.filter fun field => field.default.isNone).flatMap fun field =>
        field.comments ++ [field.typed owner] := by
  induction fields with
  | nil => rfl
  | cons field rest ih =>
      cases hdefault : field.default with
      | none => simp [Field.declaration_dataclass, hdefault, ih]
      | some value => simp [Field.declaration_dataclass, hdefault, ih]

theorem lines_defaulted (owner : String) (fields : List Field) :
    ((fields.map (Field.declaration owner .dataclass)).filter fun d => d.defaulted).flatMap
        FieldDeclaration.lines =
      (fields.filterMap fun field => field.default.map (field, ·)).flatMap fun (field, value) =>
        field.comments ++ [field.typed owner ++ " = " ++ value.defaultText] := by
  induction fields with
  | nil => rfl
  | cons field rest ih =>
      cases hdefault : field.default with
      | none => simp [Field.declaration_dataclass, hdefault, ih]
      | some value => simp [Field.declaration_dataclass, hdefault, ih]

/-- **The fields of a dataclass**: those without a default, then those with one. -/
theorem fieldSection_dataclass (record : Record) :
    record.fieldSection .dataclass =
      (record.bare.flatMap fun field => field.comments ++ [field.typed record.name]) ++
      record.defaulted.flatMap fun (field, value) =>
        field.comments ++ [field.typed record.name ++ " = " ++ value.defaultText] := by
  rw [fieldSection_eq, fieldLines, lines_bare, lines_defaulted]
  rfl

/-- A field with a default is declared with it. -/
theorem mem_fieldSection_of_default {record : Record} {field : Field} {value : Json}
    (hfield : field ∈ record.fields) (hdefault : field.default = some value) :
    field.typed record.name ++ " = " ++ value.defaultText ∈ record.fieldSection .dataclass := by
  have hdefaulted : (field, value) ∈ record.defaulted :=
    List.mem_filterMap.2 ⟨field, hfield, by rw [hdefault]; rfl⟩
  rw [fieldSection_dataclass]
  refine List.mem_append_right _ (List.mem_flatMap.2 ⟨_, hdefaulted, ?_⟩)
  exact List.mem_append_right _ (List.mem_singleton_self _)

/-- **The fields of a typed dictionary**: all of them as they come. -/
theorem fieldSection_typedDict (record : Record) :
    record.fieldSection .typedDict =
      record.fields.flatMap fun field => field.comments ++ [field.typed record.name] := by
  rw [fieldSection_eq, fieldLines, List.filter_map, List.filter_map]
  simp [Function.comp_def, Field.declaration_typedDict, List.flatMap_map]

/-! ### Parting -/

theorem map_fst_defaulted (record : Record) :
    record.defaulted.map Prod.fst = record.fields.filter fun field =>
      !field.default.isNone := by
  rw [defaulted]
  induction record.fields with
  | nil => rfl
  | cons field rest ih =>
      cases hdefault : field.default with
      | none => simp [hdefault, ih]
      | some value => simp [hdefault, ih]

/-- Parting neither loses nor repeats a field. -/
theorem parted_perm (record : Record) : record.parted.Perm record.fields := by
  rw [parted, map_fst_defaulted]
  exact List.filter_append_perm _ _

/-- A field behind one with a default has a default. -/
theorem pairwise_parted (record : Record) :
    record.parted.Pairwise fun field later => field.default.isSome → later.default.isSome := by
  have hbare : ∀ field ∈ record.bare, ¬field.default.isSome := by
    intro field hfield
    simpa using (List.mem_filter.1 hfield).2
  have hdefaulted : ∀ field ∈ record.defaulted.map Prod.fst, field.default.isSome := by
    intro field hfield
    rw [map_fst_defaulted] at hfield
    simpa using (List.mem_filter.1 hfield).2
  rw [parted, List.pairwise_append]
  refine ⟨?_, ?_, ?_⟩
  · exact List.pairwise_of_forall_mem_list fun field hfield _ _ hsome =>
      absurd hsome (hbare field hfield)
  · exact List.pairwise_of_forall_mem_list fun _ _ later hlater _ => hdefaulted later hlater
  · exact fun _ _ later hlater _ => hdefaulted later hlater

/-- **How the fields of a record are arranged.**  The source of a record is its imports, the
lines that open the class, its documentation and the lines of its fields.  In a dataclass these
are the declarations of the fields without a default and then of those with one, in a typed
dictionary those of all fields without their defaults, each with its comment directly before it.
The parting keeps every field once, and none without a default comes behind one with a
default. -/
theorem source_arranged (record : Record) :
    (∀ style, record.source style =
        sourceOf (record.imports style) (record.opening style ++
          (let body := record.docLines ++ record.fieldSection style
            if body.isEmpty then [bodyIndent ++ "pass"] else body))) ∧
      record.fieldSection .dataclass =
        (record.bare.flatMap fun field => field.comments ++ [field.typed record.name]) ++
        (record.defaulted.flatMap fun (field, value) =>
          field.comments ++ [field.typed record.name ++ " = " ++ value.defaultText]) ∧
      record.fieldSection .typedDict =
        (record.fields.flatMap fun field => field.comments ++ [field.typed record.name]) ∧
      record.parted.Perm record.fields ∧
      record.parted.Pairwise fun field later => field.default.isSome →
        later.default.isSome := by
  refine ⟨fun style => ?_, record.fieldSection_dataclass, record.fieldSection_typedDict,
    record.parted_perm, record.pairwise_parted⟩
  rw [source_eq, lines_eq]

end Record

end AvroBindings
