import AvroBindings.NamedType.OfSchema
import AvroBindings.Schema.Qualify

/-!
# Descriptor tables

The named types of a generation run, by name.  Conversion looks references up here.

## Main Definitions

* `Table` — the entries in order.
* `Table.insert` — a named type under its own name; it replaces an entry of that name in its
  place.
* `Table.find?`, `Table.record?`, `Table.enum?` — look-ups.
* `Table.ofParsed` — the table of all named types of a parsed document.

## Design Notes

A table that was read from a file may hold an entry under a key that is not the entry's own
name; a look-up goes by the key.
-/

namespace AvroBindings

/-- The named types of a run, by name. -/
structure Table where
  entries : Entries NamedType

namespace Table

/-- No types. -/
def empty : Table := ⟨[]⟩

instance : Inhabited Table := ⟨empty⟩

/-- A named type more, under its own name. -/
def insert (table : Table) (type : NamedType) : Table :=
  ⟨Entries.insert type.name type table.entries⟩

/-- The entry under a name. -/
def find? (table : Table) (name : String) : Option NamedType := table.entries.lookup name

/-- The record under a name. -/
def record? (table : Table) (name : String) : Option Record :=
  (table.find? name).bind NamedType.record?

/-- The enum under a name. -/
def enum? (table : Table) (name : String) : Option Enumeration :=
  (table.find? name).bind NamedType.enum?

/-- The keys in order. -/
def names (table : Table) : List String := Entries.keys table.entries

/-- The number of entries. -/
def size (table : Table) : Nat := table.entries.length

/-- Adds the description of every schema of a list. -/
def describeAll (lead : String) : List Json → Table → Except SchemaError Table
  | [], table => .ok table
  | schema :: rest, table =>
      do describeAll lead rest (table.insert (← NamedType.ofSchema lead schema))

/-- The table of all named types of a parsed document; `lead` is taken off the names. -/
def ofParsed (parsed : ParsedSchema) (lead : String) : Except SchemaError Table :=
  describeAll lead (parsed.named.map Prod.snd) empty

end Table

end AvroBindings
