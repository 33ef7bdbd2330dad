import AvroBindings.Json.Printer

/-!
# Faults of schemas

What can be wrong with a schema document or with a part of one.

## Main Definitions

* `SchemaProblem` — a document that is structurally broken, by what is missing or misshapen.
* `SchemaError` — a part that cannot be described, with the part itself.
* `SchemaProblem.message`, `SchemaError.message` — their texts.
-/

namespace AvroBindings

/-- What is structurally wrong with a part of a schema document. -/
inductive SchemaProblem where
  /-- A named kind has no `name` that is a string. -/
  | unnamed (kind : String)
  /-- The full name is not made of Avro names. -/
  | badName (fullName : String)
  /-- A container lacks the member that holds its parts. -/
  | missingPart (kind key : String)
  /-- A record has no array of fields. -/
  | noFields
  /-- A field has no type. -/
  | untypedField
  /-- A field has no name that is a string. -/
  | unnamedField
  /-- A second definition of a full name differs from the first. -/
  | definedTwice (fullName : String)
  /-- A schema that should be described has no `name` that is a string. -/
  | unnamedSchema
  /-- An enum has no array of symbols. -/
  | noSymbols
  /-- A symbol of an enum is not a string. -/
  | badSymbol
deriving DecidableEq

/-- The text of a structural problem. -/
def SchemaProblem.message : SchemaProblem → String
  | .unnamed kind => s!"{kind} without a `name`"
  | .badName fullName => s!"`{fullName}` is not a valid name"
  | .missingPart kind key => s!"{kind} without `{key}`"
  | .noFields => "record without `fields`"
  | .untypedField => "field without `type`"
  | .unnamedField => "field without a `name`"
  | .definedTwice fullName => s!"`{fullName}` is defined twice"
  | .unnamedSchema => "named schema without a `name`"
  | .noSymbols => "enum without `symbols`"
  | .badSymbol => "enum symbol is not a string"

/-- Why a schema, or a part of one, is refused. -/
inductive SchemaError where
  /-- A bare name that is neither a primitive type nor a dotted reference. -/
  | unknownPrimitive (name : String)
  /-- An object of a kind that has no descriptor, or that lacks the member its kind needs. -/
  | unresolvableCompound (node : Json)
  /-- A node of no recognisable shape. -/
  | unresolvable (node : Json)
  /-- A named schema that is neither a record nor an enum. -/
  | unsupportedKind (name kind : String)
  /-- A structurally broken part of a document. -/
  | invalid (problem : SchemaProblem) (fragment : Json)

/-- The text of a refusal. -/
def SchemaError.message : SchemaError → String
  | .unknownPrimitive name => s!"unknown primitive type `{name}`"
  | .unresolvableCompound node => s!"cannot resolve compound type {node.compact}"
  | .unresolvable node => s!"cannot resolve type {node.compact}"
  | .unsupportedKind name kind => s!"unsupported schema kind `{kind}` for `{name}`"
  | .invalid problem fragment => s!"invalid schema: {problem.message} in {fragment.compact}"

end AvroBindings
