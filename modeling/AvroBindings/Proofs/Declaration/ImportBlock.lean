import AvroBindings.Proofs.Declaration.Scope

/-!
# The import block

The import lines of a record as three sets: the names from `dataclasses`, those from `typing`,
and the named types.  Each set is told by what occurs in the types of the fields.

## Main Definitions

* `Descriptor.Occurs`, `Descriptor.OccursInside` — a type is a part of another, at any depth; a
  proper part.
* `Descriptor.written` — a type as a type expression, with the references in a spelling of one's
  own.
* `ImportBlock`, `ImportBlock.Exact` — the three sets; they are what the fields of a record ask
  for.
* `Record.block` — the import block of a record.

## Main Statements

* `Descriptor.typing_mem_needsAt`, `Descriptor.ownerQuoted_mem_needsAt` — what an expression
  needs from what occurs in the type.
* `ImportBlock.Exact.eq`, `ImportBlock.exact_permuted` — there is one exact block, whatever the
  order of the fields.
* `Record.import_block` — the import lines of a record.
* `Record.lines_block_fooPair` — two references can have one line.

## Design Notes

**One line for each reference.**  A set of names is an increasing list, so no name is imported
twice from a library and no reference has two lines.  But a line has only the module and the
class of a reference, and names that differ in the case of the first letter of their last
segment have both in common.  The line of two such references stands there twice.
-/

namespace AvroBindings

/-! ## Parts of types -/

namespace Descriptor

/-- A type that another one is directly made of. -/
inductive Part : Descriptor → Descriptor → Prop
  | inner (ty : Descriptor) : Part ty (.optional ty)
  | alternative {ty : Descriptor} {alternatives : List Descriptor} (h : ty ∈ alternatives) :
      Part ty (.union alternatives)
  | item (ty : Descriptor) : Part ty (.list ty)
  | value (ty : Descriptor) : Part ty (.map ty)

/-- A type occurs in another one, or is it. -/
inductive Occurs (ty : Descriptor) : Descriptor → Prop
  | whole : Occurs ty ty
  | inside {part container : Descriptor} (isPart : Part part container) (h : Occurs ty part) :
      Occurs ty container

/-- A type occurs inside another one, which is a container then. -/
def OccursInside (ty container : Descriptor) : Prop :=
  ∃ part, Part part container ∧ ty.Occurs part

variable {ty : Descriptor}

theorem occurs_iff {other : Descriptor} :
    ty.Occurs other ↔ ty = other ∨ ty.OccursInside other := by
  constructor
  · rintro (_ | ⟨isPart, h⟩)
    · exact .inl rfl
    · exact .inr ⟨_, isPart, h⟩
  · rintro (rfl | ⟨part, isPart, h⟩)
    · exact .whole
    · exact .inside isPart h

@[simp] theorem occursInside_primitive {kind : Primitive} :
    ¬ty.OccursInside (.primitive kind) := by
  rintro ⟨_, ⟨⟩, _⟩

@[simp] theorem occursInside_named {name : String} : ¬ty.OccursInside (.named name) := by
  rintro ⟨_, ⟨⟩, _⟩

@[simp] theorem occursInside_optional {inner : Descriptor} :
    ty.OccursInside (.optional inner) ↔ ty.Occurs inner := by
  constructor
  · rintro ⟨_, ⟨⟩, h⟩
    exact h
  · exact fun h => ⟨_, .inner inner, h⟩

@[simp] theorem occursInside_union {alternatives : List Descriptor} :
    ty.OccursInside (.union alternatives) ↔
      ∃ alternative ∈ alternatives, ty.Occurs alternative := by
  constructor
  · rintro ⟨alternative, isPart, h⟩
    cases isPart with
    | alternative hmem => exact ⟨alternative, hmem, h⟩
  · exact fun ⟨alternative, hmem, h⟩ => ⟨alternative, .alternative hmem, h⟩

@[simp] theorem occursInside_list {item : Descriptor} :
    ty.OccursInside (.list item) ↔ ty.Occurs item := by
  constructor
  · rintro ⟨_, ⟨⟩, h⟩
    exact h
  · exact fun h => ⟨_, .item item, h⟩

@[simp] theorem occursInside_map {value : Descriptor} :
    ty.OccursInside (.map value) ↔ ty.Occurs value := by
  constructor
  · rintro ⟨_, ⟨⟩, h⟩
    exact h
  · exact fun h => ⟨_, .value value, h⟩

/-- A type refers to the names that occur in it. -/
theorem mem_references_iff {name : String} : name ∈ ty.references ↔ (named name).Occurs ty := by
  induction ty using Descriptor.induction with
  | primitive kind => simp [references, occurs_iff]
  | optional inner ih =>
      rw [occurs_iff]
      simp [references, ih]
  | union alternatives ih =>
      rw [occurs_iff]
      simp only [references, mem_referencesOfAll, reduceCtorEq, false_or, occursInside_union]
      exact exists_congr fun ty => and_congr_right fun hty => ih ty hty
  | list item ih =>
      rw [occurs_iff]
      simp [references, ih]
  | map value ih =>
      rw [occurs_iff]
      simp [references, ih]
  | named other => simp [references, occurs_iff]

/-! ## What an expression needs -/

/-- The name in `typing` that a type expression opens with. -/
def constructor? : Descriptor → Option String
  | .optional _ => some "Optional"
  | .union _ => some "Union"
  | .list _ => some "List"
  | .map _ => some "Dict"
  | _ => none

/-- What occurs in a type is the type itself or occurs inside it. -/
theorem exists_occurs_iff {p : Descriptor → Prop} :
    (∃ part, Occurs part ty ∧ p part) ↔ p ty ∨ ∃ part, OccursInside part ty ∧ p part := by
  simp only [occurs_iff, or_and_right, exists_or, exists_eq_left]

/-- **The names from `typing` that an expression needs** are those of the containers in the
type. -/
theorem typing_mem_needsAt {owner name : String} {inside : Bool} :
    .typing name ∈ ty.needsAt owner inside ↔
      ∃ part, Occurs part ty ∧ constructor? part = some name := by
  induction ty using Descriptor.induction generalizing inside with
  | primitive kind => simp [exists_occurs_iff, needsAt, constructor?]
  | optional inner ih =>
      rw [exists_occurs_iff]
      simp [needsAt, constructor?, ih, eq_comm]
  | union alternatives ih =>
      rw [exists_occurs_iff]
      simp only [needsAt, constructor?, List.mem_cons, Need.typing.injEq, Option.some.injEq,
        occursInside_union, mem_needsInside]
      refine or_congr eq_comm ⟨?_, ?_⟩
      · rintro ⟨ty, hty, hneed⟩
        obtain ⟨part, hpart, hname⟩ := (ih ty hty).1 hneed
        exact ⟨part, ⟨ty, hty, hpart⟩, hname⟩
      · rintro ⟨part, ⟨ty, hty, hpart⟩, hname⟩
        exact ⟨ty, hty, (ih ty hty).2 ⟨part, hpart, hname⟩⟩
  | list item ih =>
      rw [exists_occurs_iff]
      simp [needsAt, constructor?, ih, eq_comm]
  | map value ih =>
      rw [exists_occurs_iff]
      simp [needsAt, constructor?, ih, eq_comm]
  | named other =>
      rw [exists_occurs_iff, needsAt]
      split <;> simp [constructor?]

/-- Inside a container the declared type is quoted wherever it occurs. -/
theorem ownerQuoted_mem_needsAt_true {owner : String} :
    .ownerQuoted ∈ ty.needsAt owner true ↔ (named owner).Occurs ty := by
  induction ty using Descriptor.induction with
  | primitive kind => simp [needsAt, occurs_iff]
  | optional inner ih =>
      rw [occurs_iff]
      simp [needsAt, ih]
  | union alternatives ih =>
      rw [occurs_iff]
      simp only [needsAt, List.mem_cons, reduceCtorEq, false_or, mem_needsInside,
        occursInside_union]
      exact exists_congr fun ty => and_congr_right fun hty => ih ty hty
  | list item ih =>
      rw [occurs_iff]
      simp [needsAt, ih]
  | map value ih =>
      rw [occurs_iff]
      simp [needsAt, ih]
  | named other =>
      rw [occurs_iff, needsAt]
      by_cases howner : owner = other
      · simp [howner]
      · simp [howner, Ne.symm howner]

/-- **The declared type is quoted** in the type of a field exactly if it occurs inside of it. -/
theorem ownerQuoted_mem_needsAt {owner : String} :
    .ownerQuoted ∈ ty.needsAt owner false ↔ (named owner).OccursInside ty := by
  cases ty with
  | primitive kind => simp [needsAt]
  | optional inner => simp [needsAt, ownerQuoted_mem_needsAt_true]
  | union alternatives => simp [needsAt, mem_needsInside, ownerQuoted_mem_needsAt_true]
  | list item => simp [needsAt, ownerQuoted_mem_needsAt_true]
  | map value => simp [needsAt, ownerQuoted_mem_needsAt_true]
  | named name => simp [needsAt]

/-! ## References as they are written -/

mutual

/-- The type as a type expression, with the references as `spell` has them. -/
def written (spell : String → String) : Descriptor → String
  | .primitive kind => kind.pythonName
  | .optional inner => "Optional[" ++ inner.written spell ++ "]"
  | .union alternatives => "Union[" ++ ", ".intercalate (allWritten spell alternatives) ++ "]"
  | .list item => "List[" ++ item.written spell ++ "]"
  | .map value => "Dict[str, " ++ value.written spell ++ "]"
  | .named name => spell name

/-- Several types as type expressions. -/
def allWritten (spell : String → String) : List Descriptor → List String
  | [] => []
  | ty :: rest => ty.written spell :: allWritten spell rest

end

/-- The class of a name, in quotes if it is the declared type. -/
def spelling (owner name : String) : String :=
  if name = owner then "\"" ++ Name.className name ++ "\"" else Name.className name

mutual

/-- Inside a container all references are written alike: as their classes, the declared type in
quotes. -/
theorem annotationAt_true (owner : String) :
    ∀ ty : Descriptor, ty.annotationAt owner true = ty.written (spelling owner)
  | .primitive kind => rfl
  | .optional inner => by rw [annotationAt, written, annotationAt_true owner inner]
  | .union alternatives =>
      by rw [annotationAt, written, annotationsInside_eq owner alternatives]
  | .list item => by rw [annotationAt, written, annotationAt_true owner item]
  | .map value => by rw [annotationAt, written, annotationAt_true owner value]
  | .named name => by simp [annotationAt, written, spelling]

theorem annotationsInside_eq (owner : String) :
    ∀ types : List Descriptor, annotationsInside owner types = allWritten (spelling owner) types
  | [] => rfl
  | ty :: rest =>
      by rw [annotationsInside, allWritten, annotationAt_true owner ty,
        annotationsInside_eq owner rest]

end

/-- **The declared type is quoted inside a container, and nowhere else**: the type of a field
that is a reference is written as the class of the name, and any other has all its references
inside. -/
theorem annotationAt_false (owner : String) (ty : Descriptor) :
    (∀ name, ty = .named name → ty.annotationAt owner false = Name.className name) ∧
      ((∀ name, ty ≠ .named name) →
        ty.annotationAt owner false = ty.written (spelling owner)) := by
  cases ty with
  | named name =>
      refine ⟨?_, fun hne => absurd rfl (hne name)⟩
      rintro _ ⟨⟩
      simp [annotationAt]
  | primitive kind => exact ⟨by simp, fun _ => rfl⟩
  | optional inner => exact ⟨by simp, fun _ => by rw [annotationAt, written, annotationAt_true]⟩
  | union alternatives =>
      exact ⟨by simp, fun _ => by rw [annotationAt, written, annotationsInside_eq]⟩
  | list item => exact ⟨by simp, fun _ => by rw [annotationAt, written, annotationAt_true]⟩
  | map value => exact ⟨by simp, fun _ => by rw [annotationAt, written, annotationAt_true]⟩

end Descriptor

/-! ## Blocks -/

/-- What a file imports: names from two libraries, and named types.  Each set is listed in
increasing order. -/
@[ext] structure ImportBlock where
  dataclasses : NameSet
  typing : NameSet
  named : NameSet

namespace ImportBlock

/-- The line that imports a named type. -/
def namedLine (name : String) : String :=
  "from " ++ Name.modulePath name ++ " import " ++ Name.className name

/-- The import lines: one for each library of which there are names, then one for each named
type. -/
def lines (block : ImportBlock) : List String :=
  Imports.statement "dataclasses" block.dataclasses ++ Imports.statement "typing" block.typing
    ++ block.named.names.map namedLine

/-- **The block is what the fields of a record ask for.** -/
structure Exact (block : ImportBlock) (record : Record) (style : Style) : Prop where
  /-- A dataclass has its decorator, and a factory if the default of a field is an array or an
  object. -/
  dataclasses : ∀ name, name ∈ block.dataclasses ↔ style = .dataclass ∧
    (name = "dataclass" ∨ name = "field" ∧ ∃ field ∈ record.fields,
      (∃ items, field.default = some (.array items)) ∨
        ∃ members, field.default = some (.object members))
  /-- A typed dictionary has its base class, and every container in the type of a field has its
  constructor. -/
  typing : ∀ name, name ∈ block.typing ↔ (style = .typedDict ∧ name = "TypedDict") ∨
    ∃ field ∈ record.fields, ∃ part : Descriptor,
      part.Occurs field.type ∧ part.constructor? = some name
  /-- The references are those that occur in the types of the fields.  The record itself is
  among them only if it is the whole type of a field and occurs nowhere inside a container. -/
  named : ∀ name, name ∈ block.named ↔
    (∃ field ∈ record.fields, (Descriptor.named name).Occurs field.type) ∧
    (name = record.name → (∃ field ∈ record.fields, field.type = .named name) ∧
      ∀ field ∈ record.fields, ¬(Descriptor.named name).OccursInside field.type)

variable {block other : ImportBlock} {record : Record} {style : Style}

/-- There is only one exact block. -/
theorem Exact.eq (h : block.Exact record style) (h' : other.Exact record style) :
    block = other := by
  ext1
  · exact NameSet.ext_mem fun name => (h.dataclasses name).trans (h'.dataclasses name).symm
  · exact NameSet.ext_mem fun name => (h.typing name).trans (h'.typing name).symm
  · exact NameSet.ext_mem fun name => (h.named name).trans (h'.named name).symm

/-- The order of the fields does not matter to it. -/
theorem exact_permuted {fields : List Field} (permuted : fields.Perm record.fields) :
    block.Exact { record with fields := fields } style ↔ block.Exact record style := by
  have hmem : ∀ field, field ∈ fields ↔ field ∈ record.fields := fun field => permuted.mem_iff
  constructor
  · rintro ⟨hdataclasses, htyping, hnamed⟩
    simp only [hmem] at hdataclasses htyping hnamed
    exact ⟨hdataclasses, htyping, hnamed⟩
  · rintro ⟨hdataclasses, htyping, hnamed⟩
    refine ⟨?_, ?_, ?_⟩ <;> simpa only [hmem]

end ImportBlock

/-! ## Needs of fields -/

/-- A type expression needs nothing from `dataclasses`. -/
theorem Descriptor.dataclasses_notMem_needsAt {owner name : String} {inside : Bool}
    {ty : Descriptor} :
    .dataclasses name ∉ ty.needsAt owner inside := by
  induction ty using Descriptor.induction generalizing inside with
  | primitive kind => simp [needsAt]
  | optional inner ih => simp [needsAt, ih]
  | union alternatives ih =>
      simp only [needsAt, List.mem_cons, reduceCtorEq, false_or, mem_needsInside, not_exists,
        not_and]
      exact fun ty hty => ih ty hty
  | list item ih => simp [needsAt, ih]
  | map value ih => simp [needsAt, ih]
  | named other =>
      rw [needsAt]
      split <;> simp

/-- A default needs a factory if it is an array or an object, and nothing else. -/
theorem Json.mem_defaultNeeds_iff {value : Json} {need : Need} :
    need ∈ value.defaultNeeds ↔
      need = .dataclasses "field" ∧
      ((∃ items, value = .array items) ∨ ∃ members, value = .object members) := by
  cases value <;> simp [defaultNeeds]

namespace Field

variable {owner : String} {style : Style} {field : Field} {need : Need}

/-- A field needs what its type needs, and a factory if the style keeps its default and this is
an array or an object. -/
theorem mem_needs_iff :
    need ∈ field.needs owner style ↔ need ∈ field.type.needsAt owner false ∨
      need = .dataclasses "field" ∧ style = .dataclass ∧
        ((∃ items, field.default = some (.array items)) ∨
          ∃ members, field.default = some (.object members)) := by
  rw [needs, List.mem_append]
  refine or_congr_right ?_
  cases style with
  | typedDict => simp [keptDefault?]
  | dataclass =>
      cases hdefault : field.default with
      | none => simp [keptDefault?, hdefault]
      | some value => simp [keptDefault?, hdefault, Json.mem_defaultNeeds_iff]

end Field

/-! ## Records -/

namespace Record

variable {record : Record} {style : Style}

/-- The import block of a record. -/
def block (record : Record) (style : Style) : ImportBlock where
  dataclasses := (record.imports style).dataclasses
  typing := (record.imports style).typing
  named :=
    ⟨(record.imports style).imported, (record.imports style).references.increasing.filter _⟩

theorem mem_dataclasses_block {name : String} :
    name ∈ (record.block style).dataclasses ↔ style = .dataclass ∧
      (name = "dataclass" ∨ name = "field" ∧ ∃ field ∈ record.fields,
        (∃ items, field.default = some (.array items)) ∨
          ∃ members, field.default = some (.object members)) := by
  show (record.imports style).Has (.dataclasses name) ↔ _
  rw [has_imports_iff]
  simp only [Field.mem_needs_iff, Descriptor.dataclasses_notMem_needsAt, false_or,
    Need.dataclasses.injEq]
  cases style with
  | typedDict => simp [headerNeed]
  | dataclass =>
      simp only [headerNeed, Need.dataclasses.injEq, true_and]
      rw [or_comm]
      refine or_congr_right ⟨?_, ?_⟩
      · rintro ⟨field, hfield, hname, hdefault⟩
        exact ⟨hname, field, hfield, hdefault⟩
      · rintro ⟨hname, field, hfield, hdefault⟩
        exact ⟨field, hfield, hname, hdefault⟩

theorem mem_typing_block {name : String} :
    name ∈ (record.block style).typing ↔ (style = .typedDict ∧ name = "TypedDict") ∨
      ∃ field ∈ record.fields, ∃ part : Descriptor,
        part.Occurs field.type ∧ part.constructor? = some name := by
  show (record.imports style).Has (.typing name) ↔ _
  rw [has_imports_iff, or_comm]
  refine or_congr ?_ (exists_congr fun field => and_congr_right fun _ => ?_)
  · cases style <;> simp [headerNeed]
  · simp [Field.mem_needs_iff, Descriptor.typing_mem_needsAt]

/-- The record is quoted exactly if it occurs inside the type of a field. -/
theorem ownerQuoted_imports :
    (record.imports style).ownerQuoted = true ↔
      ∃ field ∈ record.fields, (Descriptor.named record.name).OccursInside field.type := by
  show (record.imports style).Has .ownerQuoted ↔ _
  rw [has_imports_iff]
  have hheader : Need.ownerQuoted ≠ headerNeed style := by cases style <;> simp [headerNeed]
  simp [Field.mem_needs_iff, Descriptor.ownerQuoted_mem_needsAt, hheader]

theorem mem_named_block {name : String} :
    name ∈ (record.block style).named ↔
      (∃ field ∈ record.fields, (Descriptor.named name).Occurs field.type) ∧
      (name = record.name → (∃ field ∈ record.fields, field.type = .named name) ∧
        ∀ field ∈ record.fields, ¬(Descriptor.named name).OccursInside field.type) := by
  have howner : (record.imports style).owner = record.name := Imports.owner_needAll _ _
  show name ∈ (record.imports style).imported ↔ _
  rw [Imports.mem_imported_iff, mem_references_imports, ownerQuoted_imports, howner]
  simp only [Descriptor.mem_references_iff]
  constructor
  · rintro ⟨⟨field, hfield, hoccurs, hwhole⟩, hquoted⟩
    refine ⟨⟨field, hfield, hoccurs⟩,
      fun hself => ⟨⟨field, hfield, hwhole hself⟩, fun other hother hinside => ?_⟩⟩
    subst hself
    exact hquoted ⟨⟨other, hother, hinside⟩, rfl⟩
  · rintro ⟨⟨field, hfield, hoccurs⟩, hself⟩
    by_cases hname : name = record.name
    · obtain ⟨⟨other, hother, hwhole⟩, hnowhere⟩ := hself hname
      refine ⟨⟨other, hother, hwhole ▸ .whole, fun _ => hwhole⟩, ?_⟩
      rintro ⟨⟨inner, hinner, hinside⟩, -⟩
      exact hnowhere inner hinner (hname ▸ hinside)
    · exact ⟨⟨field, hfield, hoccurs, fun h => absurd h hname⟩, fun h => hname h.2⟩

/-- **The import block of a record is exact.** -/
theorem block_exact (record : Record) (style : Style) :
    (record.block style).Exact record style where
  dataclasses _ := mem_dataclasses_block
  typing _ := mem_typing_block
  named _ := mem_named_block

/-- Records that differ in the order of their fields have the same import block. -/
theorem block_permuted {fields : List Field} (permuted : fields.Perm record.fields) :
    ({ record with fields := fields } : Record).block style = record.block style :=
  ((ImportBlock.exact_permuted permuted).1 (block_exact _ style)).eq (record.block_exact style)

/-- **The import lines of a record.**  The source of a record opens with the lines of its import
block: `dataclasses`, `typing` and the named types, each with exactly the names that the fields
ask for, in increasing order, and one line for each reference.  The order of the fields does not
matter.  The type of a field that is a reference is written as the class of the name; in any
other the record itself is in quotes. -/
theorem import_block (record : Record) (style : Style) :
    record.source style =
        "\n".intercalate (record.block style).lines ++ "\n\n\n" ++
          String.join ((record.lines style).map (· ++ "\n")) ∧
      (record.block style).Exact record style ∧
      (∀ fields : List Field, fields.Perm record.fields →
        ({ record with fields := fields } : Record).block style = record.block style) ∧
      ∀ field ∈ record.fields,
        (∃ ending, bodyIndent ++ field.name ++ ": " ++
          field.type.annotationAt record.name false ++ ending ∈
          record.lines style) ∧
        (∀ name, field.type = .named name → field.type.annotationAt record.name false =
          Name.className name) ∧
        ((∀ name, field.type ≠ .named name) →
          field.type.annotationAt record.name false = field.type.written fun name =>
            if name = record.name then "\"" ++ Name.className name ++ "\""
              else Name.className name) := by
  refine ⟨?_, record.block_exact style, fun fields => block_permuted, fun field hfield => ?_⟩
  · rw [source_eq_statements, ← Imports.lines_eq]
    rfl
  · exact ⟨record.exists_typed_mem_lines style hfield,
      Descriptor.annotationAt_false record.name field.type⟩

/-- The label of a tree. -/
def branchLabel : Field := ⟨"label", .optional (.named "tree.Label"), none, none⟩

/-- The trees below a tree, none by default. -/
def branchChildren : Field := ⟨"children", .list (.named "tree.Node"), some (.array []), none⟩

/-- A tree with a label. -/
def branch : Record := ⟨"tree.Node", [branchLabel, branchChildren], none⟩

/-- It imports its label and not itself, and does so if the children come first. -/
theorem import_block_branch :
    [branchChildren, branchLabel].Perm branch.fields ∧
      ({ branch with fields := [branchChildren, branchLabel] } : Record).block .dataclass =
        branch.block .dataclass ∧
      (branch.block .dataclass).lines = ["from dataclasses import dataclass, field",
        "from typing import List, Optional", "from tree.label import Label"] ∧
      branchChildren.type.annotationAt branch.name false = "List[\"Node\"]" := by
  obtain ⟨-, -, hpermuted, hfields⟩ := import_block branch .dataclass
  have hswap : [branchChildren, branchLabel].Perm branch.fields := List.Perm.swap _ _ _
  have hchildren : branchChildren ∈ branch.fields := List.mem_cons_of_mem _ List.mem_cons_self
  refine ⟨hswap, hpermuted _ hswap, by decide +kernel, ?_⟩
  rw [(hfields branchChildren hchildren).2.2 (fun name => by simp [branchChildren])]
  decide +kernel

/-- A pair of two types whose names differ in the case of one letter. -/
def fooPair : Record :=
  ⟨"b.Pair", [⟨"left", .named "a.foo", none, none⟩, ⟨"right", .named "a.Foo", none, none⟩],
    none⟩

/-- **Two references can have one line**, which stands in the file twice. -/
theorem lines_block_fooPair :
    fooPair.source .dataclass =
    "from dataclasses import dataclass\nfrom a.foo import Foo\nfrom a.foo import Foo\n\n\n" ++
      "@dataclass\nclass Pair:\n    left: Foo\n    right: Foo\n" ∧
    ¬(fooPair.block .dataclass).lines.Nodup := by
  constructor <;> decide +kernel

end Record

end AvroBindings
