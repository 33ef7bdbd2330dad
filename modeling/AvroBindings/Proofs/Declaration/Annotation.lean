import AvroBindings.Declaration.Source
import AvroBindings.Proofs.Convert.Typing

/-!
# What declarations consist of

The parts of the source of a record, each by itself: the text of every annotation, which does
not depend on what was written before it, and the imports, which do not depend on the order in
which they were gathered.

## Main Definitions

* `Descriptor.annotationAt` — a type as it is written in the declaration of a record.
* `Need` — one thing that a declaration needs from its imports; `Imports.needAll` adds several.
* `Record.needs`, `Record.imports`, `Record.lines` — what a record needs, its imports, and the
  lines after them.

## Main Statements

* `Imports.expressionAt_eq` — the text and the needs of a type expression.
* `Imports.has_needAll` — the imports are the set of what was needed.
* `Field.declare_eq`, `Field.declareAll_eq` — a field by itself, and fields in a row.
* `Record.source_eq` — the source of a record from its imports and its lines.

## Design Notes

Rendering threads the imports through all type expressions of a record.  What is threaded is
only ever added to, so each expression can be told by the list of its needs, and a whole
declaration by the lists of its parts in a row.
-/

namespace AvroBindings

/-! ## Annotations -/

namespace Descriptor

mutual

/-- The type as it is written in the declaration of `owner`: with the classes of the names it
refers to, and with the owner itself in quotes inside a container. -/
def annotationAt (owner : String) (inside : Bool) : Descriptor → String
  | .primitive kind => kind.pythonName
  | .optional inner => "Optional[" ++ inner.annotationAt owner true ++ "]"
  | .union alternatives =>
      "Union[" ++ ", ".intercalate (annotationsInside owner alternatives) ++ "]"
  | .list item => "List[" ++ item.annotationAt owner true ++ "]"
  | .map value => "Dict[str, " ++ value.annotationAt owner true ++ "]"
  | .named name =>
    if inside && name == owner then "\"" ++ Name.className name ++ "\"" else Name.className name

/-- The alternatives of a union as they are written in the declaration of `owner`. -/
def annotationsInside (owner : String) : List Descriptor → List String
  | [] => []
  | ty :: rest => ty.annotationAt owner true :: annotationsInside owner rest

end

end Descriptor

/-! ## Needs -/

/-- One thing that a declaration needs. -/
inductive Need where
  /-- A name from `typing`. -/
  | typing (name : String)
  /-- A name from `dataclasses`. -/
  | dataclasses (name : String)
  /-- A named type. -/
  | reference (name : String)
  /-- The declared type itself, in quotes. -/
  | ownerQuoted
deriving DecidableEq

namespace Descriptor

mutual

/-- What a type expression in the declaration of `owner` needs, in order. -/
def needsAt (owner : String) (inside : Bool) : Descriptor → List Need
  | .primitive _ => []
  | .optional inner => .typing "Optional" :: inner.needsAt owner true
  | .union alternatives => .typing "Union" :: needsInside owner alternatives
  | .list item => .typing "List" :: item.needsAt owner true
  | .map value => .typing "Dict" :: value.needsAt owner true
  | .named name => if inside && name == owner then [.ownerQuoted] else [.reference name]

/-- What the expressions of the alternatives of a union need, in order. -/
def needsInside (owner : String) : List Descriptor → List Need
  | [] => []
  | ty :: rest => ty.needsAt owner true ++ needsInside owner rest

end

theorem mem_needsInside {owner : String} {types : List Descriptor} {need : Need} :
    need ∈ needsInside owner types ↔ ∃ ty ∈ types, need ∈ ty.needsAt owner true := by
  induction types with
  | nil => simp [needsInside]
  | cons ty rest ih => simp [needsInside, ih]

end Descriptor

namespace Imports

/-- The imports with one more thing that is needed. -/
def need (imports : Imports) : Need → Imports
  | .typing name => imports.addTyping name
  | .dataclasses name => imports.addDataclasses name
  | .reference name => imports.addReference name
  | .ownerQuoted => { imports with ownerQuoted := true }

/-- The imports with several more things that are needed. -/
def needAll (imports : Imports) (needs : List Need) : Imports := needs.foldl need imports

/-- What was needed is there. -/
def Has (imports : Imports) : Need → Prop
  | .typing name => name ∈ imports.typing
  | .dataclasses name => name ∈ imports.dataclasses
  | .reference name => name ∈ imports.references
  | .ownerQuoted => imports.ownerQuoted = true

theorem needAll_append (imports : Imports) (needs more : List Need) :
    imports.needAll (needs ++ more) = (imports.needAll needs).needAll more :=
  List.foldl_append

@[simp] theorem owner_needAll (imports : Imports) (needs : List Need) :
    (imports.needAll needs).owner = imports.owner := by
  induction needs generalizing imports with
  | nil => rfl
  | cons first rest ih =>
      show ((imports.need first).needAll rest).owner = imports.owner
      rw [ih]
      cases first <;> rfl

theorem has_need {imports : Imports} {first other : Need} :
    (imports.need first).Has other ↔ imports.Has other ∨ other = first := by
  cases first <;> cases other <;>
    simp [need, addTyping, addDataclasses, addReference, Has, NameSet.mem_insert, or_comm]

/-- **The imports are the set of what was needed.** -/
theorem has_needAll {imports : Imports} {needs : List Need} {other : Need} :
    (imports.needAll needs).Has other ↔ imports.Has other ∨ other ∈ needs := by
  induction needs generalizing imports with
  | nil => simp [needAll]
  | cons first rest ih =>
      show ((imports.need first).needAll rest).Has other ↔ _
      rw [ih, has_need, List.mem_cons, or_assoc]

theorem not_has_start (owner : String) (need : Need) : ¬(start owner).Has need := by
  cases need with
  | ownerQuoted => exact Bool.false_ne_true
  | _ => exact NameSet.notMem_empty _

mutual

/-- **A type expression by itself**: its text does not depend on what was gathered before, and
it adds its needs. -/
theorem expressionAt_eq (inside : Bool) :
    ∀ (ty : Descriptor) (imports : Imports), expressionAt inside ty imports =
      (ty.annotationAt imports.owner inside, imports.needAll (ty.needsAt imports.owner inside))
  | .primitive kind, imports => rfl
  | .optional inner, imports => by
      rw [expressionAt, expressionAt_eq true inner]
      rfl
  | .union alternatives, imports => by
      rw [expressionAt, expressionsInside_eq alternatives]
      rfl
  | .list item, imports => by
      rw [expressionAt, expressionAt_eq true item]
      rfl
  | .map value, imports => by
      rw [expressionAt, expressionAt_eq true value]
      rfl
  | .named name, imports => by
      rw [expressionAt, Descriptor.annotationAt, Descriptor.needsAt]
      split
      · rfl
      · rfl

theorem expressionsInside_eq :
    ∀ (types : List Descriptor) (imports : Imports), expressionsInside types imports =
      (Descriptor.annotationsInside imports.owner types,
        imports.needAll (Descriptor.needsInside imports.owner types))
  | [], imports => rfl
  | ty :: rest, imports => by
      rw [expressionsInside, expressionAt_eq true ty]
      simp only [expressionsInside_eq rest, owner_needAll, ← needAll_append]
      rfl

end

end Imports

/-! ## Fields -/

/-- What the literal of a default needs. -/
def Json.defaultNeeds : Json → List Need
  | .array _ => [.dataclasses "field"]
  | .object _ => [.dataclasses "field"]
  | _ => []

/-- The literal of a default. -/
def Json.defaultText (value : Json) : String := (defaultLiteral value (Imports.start "")).1

/-- A default by itself. -/
theorem defaultLiteral_eq (value : Json) (imports : Imports) :
    defaultLiteral value imports = (value.defaultText, imports.needAll value.defaultNeeds) := by
  cases value with
  | bool b => cases b <;> rfl
  | _ => rfl

namespace Field

/-- What the declaration of a field of `owner` needs, in order. -/
def needs (owner : String) (style : Style) (field : Field) : List Need :=
  field.type.needsAt owner false ++ ((field.keptDefault? style).map Json.defaultNeeds).getD []

/-- A field as it is declared in `owner`, up to its default. -/
def typed (owner : String) (field : Field) : String :=
  bodyIndent ++ field.name ++ ": " ++ field.type.annotationAt owner false

/-- The declaration of a field of `owner`. -/
def declaration (owner : String) (style : Style) (field : Field) : FieldDeclaration :=
  let comments := (field.doc.map (Python.commentLines bodyIndent)).getD []
  match field.keptDefault? style with
  | some value => ⟨comments ++ [field.typed owner ++ " = " ++ value.defaultText], true⟩
  | none => ⟨comments ++ [field.typed owner], false⟩

/-- A field by itself. -/
theorem declare_eq (style : Style) (field : Field) (imports : Imports) :
    field.declare style imports =
      (field.declaration imports.owner style,
        imports.needAll (field.needs imports.owner style)) := by
  unfold declare declaration needs Imports.expression
  rw [Imports.expressionAt_eq]
  cases field.keptDefault? style with
  | some value =>
      simp only [defaultLiteral_eq, Imports.needAll_append]
      rfl
  | none =>
      simp only [Imports.needAll_append]
      rfl

/-- Fields in a row. -/
theorem declareAll_eq (style : Style) (fields : List Field) (imports : Imports) :
    declareAll style fields imports =
      (fields.map (declaration imports.owner style),
        imports.needAll (fields.flatMap (needs imports.owner style))) := by
  induction fields generalizing imports with
  | nil => rfl
  | cons field rest ih =>
      rw [declareAll, declare_eq]
      simp only [ih, Imports.owner_needAll, ← Imports.needAll_append]
      rfl

/-- The last line of a declaration starts with the name and the type of the field. -/
theorem exists_typed_mem_lines (owner : String) (style : Style) (field : Field) :
    ∃ ending, field.typed owner ++ ending ∈ (field.declaration owner style).lines := by
  unfold declaration
  dsimp only
  split
  next value _ => exact ⟨" = " ++ value.defaultText, by simp [String.append_assoc]⟩
  next => exact ⟨"", by simp⟩

end Field

/-! ## Records -/

namespace Record

/-- What the opening of a class needs. -/
def headerNeed : Style → Need
  | .dataclass => .dataclasses "dataclass"
  | .typedDict => .typing "TypedDict"

/-- The line with the class statement. -/
def classLine (record : Record) : Style → String
  | .dataclass => "class " ++ Name.className record.name ++ ":"
  | .typedDict => "class " ++ Name.className record.name ++ "(TypedDict):"

/-- What the declaration of a record needs, in order. -/
def needs (record : Record) (style : Style) : List Need :=
  record.fields.flatMap (Field.needs record.name style) ++ [headerNeed style]

/-- The imports of the file of a record. -/
def imports (record : Record) (style : Style) : Imports :=
  (Imports.start record.name).needAll (record.needs style)

/-- The imports of a record are what its fields and the opening of the class need. -/
theorem has_imports_iff {record : Record} {style : Style} {need : Need} :
    (record.imports style).Has need ↔
      (∃ field ∈ record.fields, need ∈ field.needs record.name style) ∨
      need = headerNeed style := by
  simp [imports, needs, Imports.has_needAll, Imports.not_has_start]

/-- The lines of the file of a record after its imports. -/
def lines (record : Record) (style : Style) : List String :=
  let body :=
    record.docLines ++ fieldLines (record.fields.map (Field.declaration record.name style))
  (match style with
    | .dataclass => ["@dataclass", record.classLine .dataclass]
    | .typedDict => [record.classLine .typedDict])
    ++ if body.isEmpty then [bodyIndent ++ "pass"] else body

/-- **The source of a record**: its imports and its lines. -/
theorem source_eq (record : Record) (style : Style) :
    record.source style = sourceOf (record.imports style) (record.lines style) := by
  unfold source imports needs lines
  rw [Field.declareAll_eq]
  cases style with
  | dataclass =>
      simp only [header, Imports.needAll_append]
      rfl
  | typedDict =>
      simp only [header, Imports.needAll_append]
      rfl

/-- Every field is declared in a line that starts with its name and its type. -/
theorem exists_typed_mem_lines (record : Record) (style : Style) {field : Field}
    (h : field ∈ record.fields) :
    ∃ ending, field.typed record.name ++ ending ∈ record.lines style := by
  obtain ⟨ending, hending⟩ := field.exists_typed_mem_lines record.name style
  refine ⟨ending, ?_⟩
  have hdeclared : field.declaration record.name style ∈
      record.fields.map (Field.declaration record.name style) :=
    List.mem_map_of_mem h
  have hmem : field.typed record.name ++ ending ∈
      fieldLines (record.fields.map (Field.declaration record.name style)) := by
    -- The declaration stands with those that have a default or with those that have none.
    unfold fieldLines
    cases hdefaulted : (field.declaration record.name style).defaulted with
    | false =>
        refine List.mem_append_left _
          (List.mem_flatMap.2 ⟨_, List.mem_filter.2 ⟨hdeclared, ?_⟩, hending⟩)
        simp [hdefaulted]
    | true =>
        refine List.mem_append_right _
          (List.mem_flatMap.2 ⟨_, List.mem_filter.2 ⟨hdeclared, ?_⟩, hending⟩)
        simp [hdefaulted]
  unfold lines
  dsimp only
  rw [if_neg]
  · exact List.mem_append_right _ (List.mem_append_right _ hmem)
  · rw [List.isEmpty_iff]
    exact List.ne_nil_of_mem (List.mem_append_right _ hmem)

end Record

end AvroBindings
