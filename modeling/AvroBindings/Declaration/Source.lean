import AvroBindings.Declaration.Imports
import AvroBindings.Declaration.Text
import AvroBindings.NamedType.Basic

/-!
# Declarations

The Python source of a named type: a class for a record, an alias of its symbols for an enum.

## Main Definitions

* `Style` — whether records become dataclasses or typed dictionaries.
* `Field.declare` — the lines of one field.
* `Record.source`, `Enumeration.source`, `NamedType.source` — the source of a whole file.

## Design Notes

A dataclass may not have a field without a default after one with a default.  So the fields with
a default are moved behind the others, each group in the order of the schema and each field with
its comment.  A typed dictionary has no defaults, and all its fields stay in order.

Of a default that is an array or an object only its kind is kept: it becomes a factory of empty
ones.
-/

namespace AvroBindings

/-- How records are declared. -/
inductive Style where
  /-- Dataclasses, which keep the defaults of the schema. -/
  | dataclass
  /-- Typed dictionaries, which drop them. -/
  | typedDict
deriving DecidableEq, Inhabited

namespace Style

/-- The name of a style. -/
def name : Style → String
  | .dataclass => "dataclass"
  | .typedDict => "TypedDict"

/-- The style of a name. -/
def ofName? : String → Option Style
  | "dataclass" => some .dataclass
  | "TypedDict" => some .typedDict
  | _ => none

/-- A style is found again under its name. -/
theorem ofName?_name (style : Style) : ofName? style.name = some style := by
  cases style <;> rfl

end Style

/-! ### Defaults -/

/-- The literal of a default, and the imports after it. -/
def defaultLiteral (value : Json) (imports : Imports) : String × Imports :=
  match value with
  | .string text => (Python.stringLiteral text, imports)
  | .array _ => ("field(default_factory=list)", imports.addDataclasses "field")
  | .object _ => ("field(default_factory=dict)", imports.addDataclasses "field")
  | .bool true => ("True", imports)
  | .bool false => ("False", imports)
  | .null => ("None", imports)
  | .number n => (n.write, imports)

/-! ### Records -/

/-- The blanks before a line of a class body. -/
def bodyIndent : String := "    "

/-- The lines that declare a field, and whether the declaration has a default. -/
structure FieldDeclaration where
  lines : List String
  defaulted : Bool

namespace Field

/-- The default that a style keeps. -/
def keptDefault? (style : Style) (field : Field) : Option Json :=
  if style = .dataclass then field.default else none

/-- The declaration of a field, and the imports after it. -/
def declare (style : Style) (field : Field) (imports : Imports) : FieldDeclaration × Imports :=
  let (type, imports) := imports.expression field.type
  let comments := (field.doc.map (Python.commentLines bodyIndent)).getD []
  let typed := bodyIndent ++ field.name ++ ": " ++ type
  match field.keptDefault? style with
  | some value =>
    let (literal, imports) := defaultLiteral value imports
    (⟨comments ++ [typed ++ " = " ++ literal], true⟩, imports)
  | none => (⟨comments ++ [typed], false⟩, imports)

/-- The declarations of several fields in order, and the imports after them. -/
def declareAll (style : Style) : List Field → Imports → List FieldDeclaration × Imports
  | [], imports => ([], imports)
  | field :: rest, imports =>
    let (declaration, imports) := field.declare style imports
    let (declarations, imports) := declareAll style rest imports
    (declaration :: declarations, imports)

end Field

/-- The source text of a file: its imports, two blank lines if there are any, and its lines. -/
def sourceOf (imports : Imports) (lines : List String) : String :=
  let header := imports.lines
  (if header.isEmpty then "" else "\n".intercalate header ++ "\n\n\n")
    ++ String.join (lines.map (· ++ "\n"))

namespace Record

/-- The lines of the fields: those without a default first. -/
def fieldLines (declarations : List FieldDeclaration) : List String :=
  (declarations.filter fun d => !d.defaulted).flatMap FieldDeclaration.lines
    ++ (declarations.filter fun d => d.defaulted).flatMap FieldDeclaration.lines

/-- The lines of the documentation, with a blank line before the fields if there are any. -/
def docLines (record : Record) : List String :=
  match record.doc with
  | none => []
  | some doc =>
    (bodyIndent ++ Python.docstring doc) :: (if record.fields.isEmpty then [] else [""])

/-- The lines that open the class, and the import they need. -/
def header (record : Record) (style : Style) (imports : Imports) : List String × Imports :=
  let className := Name.className record.name
  match style with
  | .dataclass =>
      (["@dataclass", "class " ++ className ++ ":"], imports.addDataclasses "dataclass")
  | .typedDict => (["class " ++ className ++ "(TypedDict):"], imports.addTyping "TypedDict")

/-- The source of a record. -/
def source (record : Record) (style : Style) : String :=
  let (declarations, imports) :=
    Field.declareAll style record.fields (Imports.start record.name)
  let (header, imports) := record.header style imports
  let body := record.docLines ++ fieldLines declarations
  sourceOf imports (header ++ if body.isEmpty then [bodyIndent ++ "pass"] else body)

end Record

/-! ### Enums -/

/-- The source of an enum: an alias of the literals of its symbols. -/
def Enumeration.source (enum : Enumeration) : String :=
  let comments := (enum.doc.map (Python.commentLines "")).getD []
  let symbols := ", ".intercalate (enum.symbols.map Python.stringLiteral)
  sourceOf ((Imports.start enum.name).addTyping "Literal")
    (comments ++ [Name.className enum.name ++ " = Literal[" ++ symbols ++ "]"])

/-- The source of a named type. -/
def NamedType.source (type : NamedType) (style : Style) : String :=
  match type with
  | .record r => r.source style
  | .enum e => e.source

end AvroBindings
