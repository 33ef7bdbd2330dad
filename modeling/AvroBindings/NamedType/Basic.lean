import AvroBindings.Descriptor.Basic
import AvroBindings.Json.Basic

/-!
# Named types

Records and enums, described far enough to write a declaration for them and to convert their
values.

## Main Definitions

* `Field`, `Record`, `Enumeration` — a record's fields and the two kinds of named type.
* `NamedType` — either of them.
-/

namespace AvroBindings

/-- A field of a record.  A default that is null is a default; it differs from having none. -/
structure Field where
  name : String
  type : Descriptor
  default : Option Json
  doc : Option String

/-- A record: its fields in the order of declaration. -/
structure Record where
  name : String
  fields : List Field
  doc : Option String

/-- The field of a name; the first one, should a name occur twice. -/
def Record.field? (record : Record) (name : String) : Option Field :=
  record.fields.find? fun field => field.name == name

/-- An enum: its symbols in the order of declaration. -/
structure Enumeration where
  name : String
  symbols : List String
  doc : Option String
deriving DecidableEq

/-- A record or an enum. -/
inductive NamedType where
  | record (record : Record)
  | enum (enum : Enumeration)

namespace NamedType

/-- The full name, any prefix taken off. -/
def name : NamedType → String
  | .record r => r.name
  | .enum e => e.name

/-- The record, if it is one. -/
def record? : NamedType → Option Record
  | .record r => some r
  | .enum _ => none

/-- The enum, if it is one. -/
def enum? : NamedType → Option Enumeration
  | .record _ => none
  | .enum e => some e

end NamedType

end AvroBindings
