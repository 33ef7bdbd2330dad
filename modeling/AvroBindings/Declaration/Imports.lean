import AvroBindings.NameSet
import AvroBindings.Descriptor.Basic
import AvroBindings.Name

/-!
# Imports of a declaration

What the declaration of one named type has to import, gathered while its type expressions are
written.

## Main Definitions

* `Imports` — the names gathered so far, for one type that is being declared.
* `Imports.expression` — a type expression, and the imports after it.
* `Imports.lines` — the import statements.

## Design Notes

**References to the declared type itself.**  Inside a container the type's own name is put in
quotes, since the class does not exist yet when the annotation is read, and it is not imported.
A field whose whole type is the declared type is written plainly and counts as an import.  Once
a quoted reference has been written anywhere, the type is left out of the import statements.
-/

namespace AvroBindings

/-- The imports gathered for the declaration of `owner`. -/
structure Imports where
  /-- The full name of the type that is being declared. -/
  owner : String
  /-- Names to import from `typing`. -/
  typing : NameSet
  /-- Names to import from `dataclasses`. -/
  dataclasses : NameSet
  /-- Full names of the named types referred to. -/
  references : NameSet
  /-- Whether the declared type has been referred to in quotes. -/
  ownerQuoted : Bool

namespace Imports

/-- Nothing gathered yet. -/
def start (owner : String) : Imports := ⟨owner, .empty, .empty, .empty, false⟩

/-- One more name from `typing`. -/
def addTyping (imports : Imports) (name : String) : Imports :=
  { imports with typing := imports.typing.insert name }

/-- One more name from `dataclasses`. -/
def addDataclasses (imports : Imports) (name : String) : Imports :=
  { imports with dataclasses := imports.dataclasses.insert name }

/-- One more named type. -/
def addReference (imports : Imports) (name : String) : Imports :=
  { imports with references := imports.references.insert name }

mutual

/-- The expression of a type that stands inside a container or not, and the imports after it. -/
def expressionAt (inside : Bool) : Descriptor → Imports → String × Imports
  | .primitive kind, imports => (kind.pythonName, imports)
  | .optional inner, imports =>
    let (text, imports) := expressionAt true inner (imports.addTyping "Optional")
    ("Optional[" ++ text ++ "]", imports)
  | .union alternatives, imports =>
    let (texts, imports) := expressionsInside alternatives (imports.addTyping "Union")
    ("Union[" ++ ", ".intercalate texts ++ "]", imports)
  | .list item, imports =>
    let (text, imports) := expressionAt true item (imports.addTyping "List")
    ("List[" ++ text ++ "]", imports)
  | .map value, imports =>
    let (text, imports) := expressionAt true value (imports.addTyping "Dict")
    ("Dict[str, " ++ text ++ "]", imports)
  | .named name, imports =>
    let className := Name.className name
    if inside && name == imports.owner then
      ("\"" ++ className ++ "\"", { imports with ownerQuoted := true })
    else (className, imports.addReference name)

/-- The expressions of the alternatives of a union, in order. -/
def expressionsInside : List Descriptor → Imports → List String × Imports
  | [], imports => ([], imports)
  | ty :: rest, imports =>
    let (text, imports) := expressionAt true ty imports
    let (texts, imports) := expressionsInside rest imports
    (text :: texts, imports)

end

/-- The expression of the type of a field, and the imports after it. -/
def expression (ty : Descriptor) (imports : Imports) : String × Imports :=
  expressionAt false ty imports

/-- The statement that imports names from a module; no statement for no names. -/
def statement (module : String) (names : NameSet) : List String :=
  if names.isEmpty then []
    else ["from " ++ module ++ " import " ++ ", ".intercalate names.names]

/-- The named types that get an import statement. -/
def imported (imports : Imports) : List String :=
  imports.references.names.filter fun name => !(imports.ownerQuoted && name == imports.owner)

/-- The import statements: `dataclasses`, `typing`, then one for every named type by full
name. -/
def lines (imports : Imports) : List String :=
  statement "dataclasses" imports.dataclasses ++ statement "typing" imports.typing
    ++ imports.imported.map fun name =>
      "from " ++ Name.modulePath name ++ " import " ++ Name.className name

end Imports

end AvroBindings
