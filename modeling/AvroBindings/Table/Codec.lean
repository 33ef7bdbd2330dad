import AvroBindings.Table
import AvroBindings.NamedType.Codec
import AvroBindings.Json.Reader

/-!
# Descriptor tables in JSON

A table is written as one object with a member for every entry, in order.

## Main Definitions

* `Table.toJson` — a table as a tree.
* `Table.ofJson?` — the table of a tree.
* `Table.read` — the table of a text.

## Design Notes

`Table.read` decodes while it reads: an entry is decoded as soon as its text ends, and the kind
of an entry as soon as it is read.  Of several faults in a text the one met first is reported,
so an entry of the wrong shape hides a broken text after it.  A key that occurs twice keeps its
first place and gets the last entry.
-/

namespace AvroBindings

namespace Table

/-- A table as a tree. -/
def toJson (table : Table) : Json :=
  .object (table.entries.map fun (key, type) => (key, type.toJson))

/-- The entry that a member stands for. -/
def entryOf? (member : String × Json) : Option (String × NamedType) :=
  (NamedType.ofJson? member.2).map fun type => (member.1, type)

/-- The table of a tree, if it is the form of one. -/
def ofJson? : Json → Option Table
  | .object members => (members.mapM entryOf?).map fun pairs => ⟨Entries.ofPairs pairs⟩
  | _ => none

/-! ### Reading a text -/

/-- Reads a value where one of another shape is wanted.  An array or object is not read
further. -/
def wrongShape {α : Type} (fuel room : Nat) (text : List Char) : Except Json.Fault α :=
  match Json.skipSpace text with
  | '[' :: _ | '\x7b' :: _ => .error .mistyped
  | text => do
    let _ ← Json.value fuel room text
    .error .mistyped

/-- Reads the kind of a named type. -/
def readKind (fuel room : Nat) : Json.Reader String := fun text =>
  match Json.skipSpace text with
  | '"' :: text => do
    let (kind, text) ← Json.stringTail [] text
    if NamedType.isKind kind then .ok (kind, text) else .error .mistyped
  | text => wrongShape fuel room text

/-- What has been read of a named type: its kind, and the other parts, last first. -/
structure Draft where
  kind : Option String
  members : List (String × Json)

/-- Reads one member of a named type, from the colon on.  A second kind is refused before its
colon. -/
def readMember (fuel room : Nat) (draft : Draft) (key : String) : Json.Reader Draft :=
  fun text => do
  if key = "type" then
    if draft.kind.isSome then .error .mistyped
    else
      let (kind, text) ← readKind fuel room (← Json.afterColon text)
      return (⟨some kind, draft.members⟩, text)
  else
    let (value, text) ← Json.value fuel room (← Json.afterColon text)
    return (⟨draft.kind, (key, value) :: draft.members⟩, text)

/-- Reads one item of a named type that is given as an array: first the kind, then the parts. -/
def readItem (fuel room : Nat) (draft : Option String × List Json) :
    Json.Reader (Option String × List Json) := fun text => do
  match draft with
  | (none, items) =>
    let (kind, text) ← readKind fuel room text
    return ((some kind, items), text)
  | (some kind, items) =>
    let (value, text) ← Json.value fuel room text
    return ((some kind, value :: items), text)

/-- The named type of a kind and its other parts, both of which must be there. -/
def finishEntry (kind : Option String) (rest : Json) (text : List Char) :
    Except Json.Fault (NamedType × List Char) :=
  match kind.bind fun kind => NamedType.ofTagged? kind rest with
  | some type => .ok (type, text)
  | none => .error .mistyped

/-- Reads a named type. -/
def readEntry (fuel room : Nat) : Json.Reader NamedType := fun text =>
  match Json.skipSpace text with
  | '\x7b' :: text =>
    if room ≤ 1 then .error .malformed
    else do
      let (draft, text) ← Json.foldMembers (readMember fuel (room - 1)) fuel true
          ⟨none, []⟩ text
      finishEntry draft.kind (.object draft.members.reverse) text
  | '[' :: text =>
    if room ≤ 1 then .error .malformed
    else do
      let (draft, text) ← Json.foldItems (readItem fuel (room - 1)) fuel true (none, []) text
      finishEntry draft.1 (.array draft.2.reverse) text
  | text => wrongShape fuel room text

/-- Reads a table off the front of a text. -/
def readEntries (fuel room : Nat) : Json.Reader Table := fun text =>
  match Json.skipSpace text with
  | '\x7b' :: text => do
    let step (entries : Entries NamedType) (key : String) : Json.Reader (Entries NamedType) :=
      fun text => do
      let (type, text) ← readEntry fuel (room - 1) (← Json.afterColon text)
      return (Entries.insert key type entries, text)
    let (entries, text) ← Json.foldMembers step fuel true [] text
    return (⟨entries⟩, text)
  | text => wrongShape fuel room text

/-- The table of a whole text. -/
def read (text : String) : Except Json.Fault Table :=
  readEntries (Json.fuelFor text.toList) Json.nestingRoom text.toList >>= Json.finish

end Table

end AvroBindings
