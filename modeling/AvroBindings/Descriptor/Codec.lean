import AvroBindings.Descriptor.Basic
import AvroBindings.Json.Basic

/-!
# Descriptors in JSON

A descriptor is written as an object of two members, `kind` and `of`.

## Main Definitions

* `Descriptor.toJson` — a descriptor as a tree.
* `Descriptor.ofJson?` — the descriptor of a tree.
* `Reading` — whether a tree is read at once or had to be held back.
* `Json.soleMember?` — a member that must not be repeated.
* `Json.choice?`, `Json.firstItemChoice?` — the name that stands for one of several choices.

## Design Notes

Reading is more generous than writing.  Members may come in any order and others may stand
beside them; the two parts may also be given as an array of exactly two items, the kind first.
A repeated `kind` or `of` is refused.

**Choices.**  A kind under `kind`, and a primitive kind, is spelled as its name, or as an object
whose only member has that name and the value null.  In an array the kind is always the bare
name.

**Held back.**  What comes before the kind that tells its meaning is held back and read once the
kind is known.  The same holds for all of a named type.  A tree that is held back admits two
more spellings: an empty object in place of null beside the name of a choice, and, in an array,
the number of a kind, counted from nought in the order of `Descriptor.kinds`.
-/

namespace AvroBindings

namespace Json

/-- The value of a member that is stated exactly once. -/
def soleMember? (key : String) (members : List (String × Json)) : Option Json :=
  match members.filter (·.1 == key) with
  | [(_, value)] => some value
  | _ => none

/-- The value of a member that is stated at most once: `none` if it is stated twice. -/
def loneMember? (key : String) (members : List (String × Json)) : Option (Option Json) :=
  match members.filter (·.1 == key) with
  | [] => some none
  | [(_, value)] => some (some value)
  | _ => none

end Json

/-- Whether a tree is read at once, or was held back until its meaning was known. -/
inductive Reading where
  | direct
  | held
deriving DecidableEq

namespace Json

/-- The name of a choice that carries nothing. -/
def choice? (reading : Reading) : Json → Option String
  | .string name => some name
  | .object [(name, .null)] => some name
  | .object [(name, .object [])] => if reading = .held then some name else none
  | _ => none

/-- The name of a choice that stands first in an array, from the names of all choices in
order. -/
def firstItemChoice? (reading : Reading) (names : List String) : Json → Option String
  | .string name => some name
  | .number (.int n) => if reading = .held && 0 ≤ n then names[n.toNat]? else none
  | _ => none

end Json

namespace Descriptor

/-! ### Writing -/

mutual

/-- A descriptor as a tree. -/
def toJson : Descriptor → Json
  | .primitive kind => .object [("kind", .string "primitive"), ("of", .string kind.name)]
  | .optional inner => .object [("kind", .string "optional"), ("of", inner.toJson)]
  | .union alternatives =>
      .object [("kind", .string "union"), ("of", .array (listToJson alternatives))]
  | .list item => .object [("kind", .string "list"), ("of", item.toJson)]
  | .map value => .object [("kind", .string "map"), ("of", value.toJson)]
  | .named name => .object [("kind", .string "named"), ("of", .string name)]

/-- Several descriptors as trees. -/
def listToJson : List Descriptor → List Json
  | [] => []
  | ty :: rest => ty.toJson :: listToJson rest

end

/-! ### Reading -/

/-- The names of the kinds of descriptor, in order. -/
def kinds : List String := ["primitive", "optional", "union", "list", "map", "named"]

/-- The reading of what stands under `of`: it is held back if it comes before the kind. -/
def contentReading (reading : Reading) (members : List (String × Json)) : Reading :=
  match members.find? fun member => member.1 == "kind" || member.1 == "of" with
  | some ("of", _) => .held
  | _ => reading

/-- The descriptor of a kind, from what stands under `of`: as it is, read as a descriptor, and
read as a list of descriptors. -/
def assemble? (reading : Reading) (kind : String) (content : Json)
    (inner : Unit → Option Descriptor) (alternatives : Unit → Option (List Descriptor)) :
    Option Descriptor :=
  match kind with
  | "primitive" => ((content.choice? reading).bind Primitive.ofName?).map .primitive
  | "optional" => (inner ()).map .optional
  | "union" => (alternatives ()).map .union
  | "list" => (inner ()).map .list
  | "map" => (inner ()).map .map
  | "named" => content.text?.map .named
  | _ => none

mutual

/-- The descriptor of a tree, if it is the form of one. -/
def ofJson? (reading : Reading) : Json → Option Descriptor
  | .object members => do
    let kind ← (← Json.soleMember? "kind" members).choice? reading
    let _ ← Json.soleMember? "of" members
    ofContent? (contentReading reading members) kind members
  | .array [first, content] => do
    let kind ← first.firstItemChoice? reading kinds
    assemble? reading kind content (fun _ => ofJson? reading content)
      (fun _ => ofItems? reading content)
  | _ => none

/-- The descriptor of a kind whose content stands under `of`. -/
def ofContent? (reading : Reading) (kind : String) : List (String × Json) → Option Descriptor
  | [] => none
  | (k, content) :: members =>
    if k = "of" then
      assemble? reading kind content (fun _ => ofJson? reading content)
        (fun _ => ofItems? reading content)
    else ofContent? reading kind members

/-- The descriptors of the items of an array. -/
def ofItems? (reading : Reading) : Json → Option (List Descriptor)
  | .array items => ofList? reading items
  | _ => none

/-- The descriptors of several trees. -/
def ofList? (reading : Reading) : List Json → Option (List Descriptor)
  | [] => some []
  | item :: items => do
    let ty ← ofJson? reading item
    return ty :: (← ofList? reading items)

end

end Descriptor

end AvroBindings
