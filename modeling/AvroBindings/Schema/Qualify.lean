import AvroBindings.Schema.Error
import AvroBindings.Name

/-!
# Qualified schemas

A schema document in which every name is a full name, together with the registry of the named
types met in it.

## Main Definitions

* `Registry` — the named schemas by full name, in the order in which they were first defined.
* `Schema.qualify` — a schema with full names in place of its names, its definitions entered
  into a registry.
* `ParsedSchema`, `Schema.parse` — a document qualified on its own.

## Main Statements

* `Entries.keys_nodup_insert` — the registry never holds a name twice.

## Design Notes

**Scope.**  A named definition is put into the namespace it states, or else into the one around
it, and its fields are read in the namespace part of its full name.  Arrays, maps and nested
types pass the scope on.

**Order.**  A definition is registered after everything inside it, so nested types come first.
When a part is refused, what was registered before stays registered: the registry is part of the
state that a refusal keeps.

**Defined twice.**  A name may be defined again only by an equal schema, the order of members
aside; the later spelling then replaces the stored one in its place.

**Recursion.**  The functions recurse on the tree itself.  The type positions inside an object
are found by walking its members (`qualifyMember`, `qualifyFieldsMember`), not by looking a
member up first.
-/

namespace AvroBindings

/-- The named schemas of a document, keyed by full name in the order of definition. -/
abbrev Registry := Entries Json

/-- A computation that enters definitions into a registry and may refuse a schema; a refusal
keeps what was entered before. -/
abbrev Registering := ExceptT SchemaError (StateM Registry)

namespace Schema

/-- The kinds of schema that carry a name and are registered. -/
def namedKinds : List String := ["record", "error", "enum", "fixed"]

/-- The names of the primitive types of Avro. -/
def primitiveNames : List String :=
  ["null", "boolean", "int", "long", "float", "double", "bytes", "string"]

/-- Whether a kind is that of a record. -/
def isRecordKind (kind : String) : Bool := kind == "record" || kind == "error"

/-- Whether a kind is one that carries a name. -/
def isNamedKind (kind : String) : Bool := namedKinds.contains kind

/-- The member that holds the type of the parts of a container. -/
def partKey? (kind : String) : Option String :=
  if kind = "array" then some "items" else if kind = "map" then some "values" else none

/-- A reference in a scope: primitive types keep their name. -/
def qualifyReference (scope name : String) : String :=
  if primitiveNames.contains name then name else Name.qualify scope name

/-- The full name of a definition, from its members and the scope around it.  A `namespace` that
is not a string counts as absent. -/
def fullNameOf (scope kind : String) (members : List (String × Json)) :
    Except SchemaError String :=
  match (Json.object members).textMember? "name" with
  | none => .error (.invalid (.unnamed kind) (.object members))
  | some name =>
    let scope := ((Json.object members).textMember? "namespace").getD scope
    let fullName := Name.qualify scope name
    if Name.isFull fullName then .ok fullName
    else .error (.invalid (.badName fullName) (.object members))

/-- The members of a definition with its full name in place of its name and namespace. -/
def rename (fullName : String) (members : List (String × Json)) : List (String × Json) :=
  Entries.swapErase "namespace" (Entries.insert "name" (.string fullName) members)

/-- Enters a qualified definition under its full name, unless a different one is there. -/
def register (fullName : String) (schema : Json) : Registering Json := do
  match (← get).lookup fullName with
  | some stored =>
    if !stored.same schema then throw (.invalid (.definedTwice fullName) schema)
  | none => pure ()
  modify (Entries.insert fullName schema)
  return schema

mutual

/-- A schema with full names, read in a scope. -/
def qualify (scope : String) : Json → Registering Json
  | .string name => return .string (qualifyReference scope name)
  | .array items => return .array (← qualifyItems scope items)
  | .object members =>
    match members.lookup "type" with
    | some (.string kind) =>
      if isNamedKind kind then do
        let fullName ← fullNameOf scope kind members
        if isRecordKind kind then
          if ((Json.object members).member? "fields").bind Json.items? |>.isNone then
            throw (.invalid .noFields (.object members))
          let qualified ← qualifyFieldsMember (Name.space fullName) members
          register fullName (.object (rename fullName qualified))
        else register fullName (.object (rename fullName members))
      else
        match partKey? kind with
        | some key => do
          if (members.lookup key).isNone then
            throw (.invalid (.missingPart kind key) (.object members))
          return .object (← qualifyMember key scope members)
        | none => return .object members
    | some (.object _) | some (.array _) =>
        return .object (← qualifyMember "type" scope members)
    | _ => return .object members
  | json => return json

/-- The members of a union, in order. -/
def qualifyItems (scope : String) : List Json → Registering (List Json)
  | [] => return []
  | item :: items => do
    let item ← qualify scope item
    return item :: (← qualifyItems scope items)

/-- The members of an object, the schema at one key qualified. -/
def qualifyMember (key scope : String) :
    List (String × Json) → Registering (List (String × Json))
  | [] => return []
  | (k, v) :: members => do
    if k = key then return (k, ← qualify scope v) :: members
    else return (k, v) :: (← qualifyMember key scope members)

/-- The members of a record definition, the types of its fields qualified. -/
def qualifyFieldsMember (scope : String) :
    List (String × Json) → Registering (List (String × Json))
  | [] => return []
  | (k, .array fields) :: members => do
    if k = "fields" then return (k, .array (← qualifyFields scope fields)) :: members
    else return (k, .array fields) :: (← qualifyFieldsMember scope members)
  | member :: members => return member :: (← qualifyFieldsMember scope members)

/-- The fields of a record, the type of each qualified. -/
def qualifyFields (scope : String) : List Json → Registering (List Json)
  | [] => return []
  | .object members :: fields => do
    if (members.lookup "type").isNone then throw (.invalid .untypedField (.object members))
    let field := Json.object (← qualifyMember "type" scope members)
    return field :: (← qualifyFields scope fields)
  | field :: _ => throw (.invalid .untypedField field)

end

end Schema

/-! ### Documents -/

/-- A document with full names, and the named types that it defines or was read after. -/
structure ParsedSchema where
  schema : Json
  named : Registry

/-- The `name` member of the root, if it is a string: its full name when the root is a named
type. -/
def ParsedSchema.rootName? (parsed : ParsedSchema) : Option String :=
  parsed.schema.textMember? "name"

/-- Qualifies one more document in a registry: the outcome and the registry after it. -/
def Schema.qualifyIn (registry : Registry) (scope : String) (document : Json) :
    Except SchemaError Json × Registry :=
  (Schema.qualify scope document).run.run registry

/-- A document qualified on its own. -/
def Schema.parse (document : Json) : Except SchemaError ParsedSchema :=
  match Schema.qualifyIn [] "" document with
  | (.ok schema, named) => .ok ⟨schema, named⟩
  | (.error error, _) => .error error

end AvroBindings
