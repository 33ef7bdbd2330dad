import AvroBindings.Descriptor.Basic
import AvroBindings.Schema.Error
import AvroBindings.Name

/-!
# Descriptors of schema nodes

The descriptor of a node that stands at a type position of a schema.

## Main Definitions

* `Descriptor.ofMembers?` — the descriptor of a union from those of its members.
* `Descriptor.ofNode` — the descriptor of a node, a prefix taken off the names it refers to.

## Design Notes

A union of one member is that member.  A union of two members of which exactly one is null is an
optional.  Any other union keeps its members in order, so nested unions stay nested.  All
members are resolved before the shape is decided, so the first member that cannot be resolved is
the one reported.
-/

namespace AvroBindings.Descriptor

/-- The descriptor of a union; the empty union has none. -/
def ofMembers? : List Descriptor → Option Descriptor
  | [] => none
  | [only] => some only
  | [a, b] =>
    if a.isNull && !b.isNull then some (.optional b)
    else if b.isNull && !a.isNull then some (.optional a)
    else some (.union [a, b])
  | members => some (.union members)

/-- The descriptor of a bare name: a primitive type, or a reference if it has a dot. -/
def ofReference (lead name : String) : Except SchemaError Descriptor :=
  match Primitive.ofAvroName? name with
  | some kind => .ok (.primitive kind)
  | none =>
    if Name.isDotted name then .ok (.named (Name.stripPrefix lead name))
    else .error (.unknownPrimitive name)

mutual

/-- The descriptor of a type node; `lead` is taken off the names that start with it. -/
def ofNode (lead : String) : Json → Except SchemaError Descriptor
  | .string name => ofReference lead name
  | .array nodes => do
    match ofMembers? (← ofNodes lead nodes) with
    | some ty => return ty
    | none => throw (.unresolvable (.array nodes))
  | .object members =>
    match (Json.object members).textMember? "type" with
    | none => .error (.unresolvable (.object members))
    | some kind =>
      let refusal := SchemaError.unresolvableCompound (.object members)
      if kind = "record" || kind = "error" || kind = "enum" then
        ofMember lead refusal "name" members
      else if kind = "map" then return .map (← ofMember lead refusal "values" members)
      else if kind = "array" then return .list (← ofMember lead refusal "items" members)
      else
        match Primitive.ofAvroName? kind with
        | some kind => .ok (.primitive kind)
        | none => .error refusal
  | node => .error (.unresolvable node)

/-- The descriptors of several nodes. -/
def ofNodes (lead : String) : List Json → Except SchemaError (List Descriptor)
  | [] => return []
  | node :: nodes => do
    let ty ← ofNode lead node
    return ty :: (← ofNodes lead nodes)

/-- The descriptor of the node at a key, or a refusal if there is none. -/
def ofMember (lead : String) (refusal : SchemaError) (key : String) :
    List (String × Json) → Except SchemaError Descriptor
  | [] => .error refusal
  | (k, v) :: members => if k = key then ofNode lead v else ofMember lead refusal key members

end

end AvroBindings.Descriptor
