import AvroBindings.NamedType.Basic
import AvroBindings.Descriptor.OfNode

/-!
# Describing named schemas

The named type that a qualified schema defines.

## Main Definitions

* `Field.ofSchema`, `Enumeration.symbolOf` — the parts.
* `NamedType.ofSchema` — the whole.

## Design Notes

The name is looked at before the kind, so a schema without a name is reported as such whatever
its kind, and the report of an unsupported kind can give the name.  A kind that is not a string
counts as the empty one.
-/

namespace AvroBindings

/-- The field that a member of `fields` defines. -/
def Field.ofSchema (lead : String) (node : Json) : Except SchemaError Field := do
  let some name := node.textMember? "name" | throw (.invalid .unnamedField node)
  let some type := node.member? "type" | throw (.invalid .untypedField node)
  let type ← Descriptor.ofNode lead type
  return ⟨name, type, node.member? "default", node.textMember? "doc"⟩

/-- The symbol that a member of `symbols` defines. -/
def Enumeration.symbolOf (node : Json) : Except SchemaError String :=
  match node with
  | .string symbol => .ok symbol
  | node => .error (.invalid .badSymbol node)

/-- The named type that a qualified schema defines; `lead` is taken off the names that start
with it. -/
def NamedType.ofSchema (lead : String) (schema : Json) : Except SchemaError NamedType := do
  let kind := (schema.textMember? "type").getD ""
  let some fullName := schema.textMember? "name" | throw (.invalid .unnamedSchema schema)
  let name := Name.stripPrefix lead fullName
  let doc := schema.textMember? "doc"
  if kind = "record" || kind = "error" then
    let some nodes :=
      (schema.member? "fields").bind Json.items? | throw (.invalid .noFields schema)
    return .record ⟨name, ← nodes.mapM (Field.ofSchema lead), doc⟩
  else if kind = "enum" then
    let some nodes :=
      (schema.member? "symbols").bind Json.items? | throw (.invalid .noSymbols schema)
    return .enum ⟨name, ← nodes.mapM Enumeration.symbolOf, doc⟩
  else throw (.unsupportedKind name kind)

end AvroBindings
