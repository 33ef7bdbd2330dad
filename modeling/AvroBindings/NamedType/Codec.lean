import AvroBindings.NamedType.Basic
import AvroBindings.Descriptor.Codec

/-!
# Named types in JSON

A named type is written as an object that starts with its `type`, which is `record` or `enum`.

## Main Definitions

* `Field.toJson`, `Record.toJson`, `Enumeration.toJson`, `NamedType.toJson` — the written forms.
  A `doc` that is absent is left out; a `default` is left out only if there is none.
* `NamedType.ofJson?` — the named type of a tree.
* `NamedType.ofTagged?` — the same from a `type` that has been read apart from the rest.

## Design Notes

Reading accepts the members in any order and ignores others, refuses a repeated one, and takes a
`doc` that is null for an absent one.  As for descriptors, the parts may also be given as an
array of all of them in order.  The kind is always the bare name.  All but the kind is held back
until the kind is known, so the types of fields are read as `Reading.held`.
-/

namespace AvroBindings

/-- A member for the documentation, if there is one. -/
def docMember (doc : Option String) : List (String × Json) :=
  doc.toList.map fun text => ("doc", .string text)

/-- The documentation that a value stands for: null stands for none. -/
def docOf? : Json → Option (Option String)
  | .null => some none
  | .string text => some (some text)
  | _ => none

/-- The documentation among the members of an object. -/
def docAmong? (members : List (String × Json)) : Option (Option String) := do
  match ← Json.loneMember? "doc" members with
  | none => return none
  | some value => docOf? value

namespace Field

/-- A field as a tree. -/
def toJson (field : Field) : Json :=
  .object ([("name", .string field.name), ("type", field.type.toJson)]
    ++ (field.default.toList.map fun value => ("default", value)) ++ docMember field.doc)

/-- The field of a tree, if it is the form of one. -/
def ofJson? : Json → Option Field
  | .object members => do
    let name ← (← Json.soleMember? "name" members).text?
    let type ← Descriptor.ofJson? .held (← Json.soleMember? "type" members)
    let default ← Json.loneMember? "default" members
    return ⟨name, type, default.map Json.collapse, ← docAmong? members⟩
  | .array [name, type, default, doc] => do
    return ⟨← name.text?, ← Descriptor.ofJson? .held type, some default.collapse, ← docOf? doc⟩
  | _ => none

end Field

namespace Record

/-- The members of a record. -/
def toMembers (record : Record) : List (String × Json) :=
  [("name", .string record.name), ("fields", .array (record.fields.map Field.toJson))]
    ++ docMember record.doc

/-- A record as a tree, without its kind. -/
def toJson (record : Record) : Json := .object record.toMembers

/-- The record of a tree, if it is the form of one. -/
def ofJson? : Json → Option Record
  | .object members => do
    let name ← (← Json.soleMember? "name" members).text?
    let fields ← (← (← Json.soleMember? "fields" members).items?).mapM Field.ofJson?
    return ⟨name, fields, ← docAmong? members⟩
  | .array [name, fields, doc] => do
    return ⟨← name.text?, ← (← fields.items?).mapM Field.ofJson?, ← docOf? doc⟩
  | _ => none

end Record

namespace Enumeration

/-- The members of an enum. -/
def toMembers (enum : Enumeration) : List (String × Json) :=
  [("name", .string enum.name), ("symbols", .array (enum.symbols.map Json.string))]
    ++ docMember enum.doc

/-- An enum as a tree, without its kind. -/
def toJson (enum : Enumeration) : Json := .object enum.toMembers

/-- The enum of a tree, if it is the form of one. -/
def ofJson? : Json → Option Enumeration
  | .object members => do
    let name ← (← Json.soleMember? "name" members).text?
    let symbols ← (← (← Json.soleMember? "symbols" members).items?).mapM Json.text?
    return ⟨name, symbols, ← docAmong? members⟩
  | .array [name, symbols, doc] => do
    return ⟨← name.text?, ← (← symbols.items?).mapM Json.text?, ← docOf? doc⟩
  | _ => none

end Enumeration

namespace NamedType

/-- A named type as a tree. -/
def toJson : NamedType → Json
  | .record r => .object (("type", .string "record") :: r.toMembers)
  | .enum e => .object (("type", .string "enum") :: e.toMembers)

/-- Whether a text is one of the two kinds. -/
def isKind (kind : String) : Bool := kind == "record" || kind == "enum"

/-- The named type of a kind, from the tree without the kind. -/
def ofTagged? (kind : String) (rest : Json) : Option NamedType :=
  match kind with
  | "record" => (Record.ofJson? rest).map .record
  | "enum" => (Enumeration.ofJson? rest).map .enum
  | _ => none

/-- The named type of a tree, if it is the form of one. -/
def ofJson? : Json → Option NamedType
  | .object members => do
    let kind ← (← Json.soleMember? "type" members).text?
    ofTagged? kind (.object (members.filter fun member => member.1 != "type"))
  | .array (.string kind :: rest) => ofTagged? kind (.array rest)
  | _ => none

end NamedType

end AvroBindings
