/-!
# Type descriptors

What the type of a field is, once the spellings of a schema are settled.

## Main Definitions

* `Primitive` — the five primitive kinds; `long` is an integer and `double` a float.
* `Descriptor` — a type: a primitive kind, a container, a union, or a reference by name.
* `Descriptor.admitsNull` — whether null is a value of the type.
* `Descriptor.text` — the type as a Python type expression with full names.
-/

namespace AvroBindings

/-- The primitive kinds. -/
inductive Primitive where
  | string
  | integer
  | boolean
  | float
  | null
deriving DecidableEq

namespace Primitive

/-- The kind of a primitive type of Avro; `bytes` has none. -/
def ofAvroName? : String → Option Primitive
  | "string" => some .string
  | "int" | "long" => some .integer
  | "boolean" => some .boolean
  | "float" | "double" => some .float
  | "null" => some .null
  | _ => none

/-- The name of the kind in a descriptor table. -/
def name : Primitive → String
  | .string => "string"
  | .integer => "integer"
  | .boolean => "boolean"
  | .float => "float"
  | .null => "null"

/-- The kind of a name in a descriptor table. -/
def ofName? : String → Option Primitive
  | "string" => some .string
  | "integer" => some .integer
  | "boolean" => some .boolean
  | "float" => some .float
  | "null" => some .null
  | _ => none

/-- The spelling of the kind in Python. -/
def pythonName : Primitive → String
  | .string => "str"
  | .integer => "int"
  | .boolean => "bool"
  | .float => "float"
  | .null => "None"

/-- A kind is found again under its name. -/
theorem ofName?_name (kind : Primitive) : ofName? kind.name = some kind := by
  cases kind <;> rfl

end Primitive

/-- The type of a field. -/
inductive Descriptor where
  /-- A value of a primitive kind. -/
  | primitive (kind : Primitive)
  /-- A value of the inner type, or null. -/
  | optional (inner : Descriptor)
  /-- A value of one of the alternatives. -/
  | union (alternatives : List Descriptor)
  /-- A sequence of items. -/
  | list (item : Descriptor)
  /-- A map from strings. -/
  | map (value : Descriptor)
  /-- The record or enum of this name, any prefix taken off. -/
  | named (name : String)
deriving Inhabited

namespace Descriptor

/-- Whether the type is the null primitive itself. -/
def isNull : Descriptor → Bool
  | .primitive .null => true
  | _ => false

mutual

/-- Whether null is a value of the type. -/
def admitsNull : Descriptor → Bool
  | .primitive .null => true
  | .optional _ => true
  | .union alternatives => anyAdmitsNull alternatives
  | _ => false

/-- Whether null is a value of one of the types. -/
def anyAdmitsNull : List Descriptor → Bool
  | [] => false
  | ty :: rest => ty.admitsNull || anyAdmitsNull rest

end

mutual

/-- The type as a Python type expression, references by their full names. -/
def text : Descriptor → String
  | .primitive kind => kind.pythonName
  | .optional inner => "Optional[" ++ inner.text ++ "]"
  | .union alternatives => "Union[" ++ ", ".intercalate (texts alternatives) ++ "]"
  | .list item => "List[" ++ item.text ++ "]"
  | .map value => "Dict[str, " ++ value.text ++ "]"
  | .named name => name

/-- The expressions of several types. -/
def texts : List Descriptor → List String
  | [] => []
  | ty :: rest => ty.text :: texts rest

end

/-- The companion of `admitsNull` is a search through the list. -/
theorem anyAdmitsNull_eq_any (types : List Descriptor) :
    anyAdmitsNull types = types.any admitsNull := by
  induction types with
  | nil => rfl
  | cons ty rest ih => simp [anyAdmitsNull, ih]

end Descriptor

end AvroBindings
