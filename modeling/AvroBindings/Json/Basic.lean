import AvroBindings.Entries
import AvroBindings.Number.Binary64

/-!
# Json values

The tree of a JSON text.  An integer written without fraction and exponent is kept apart from a
floating point number, and an object remembers the order of its members.

## Main Definitions

* `JsonNumber`, `Json` — numbers and trees.
* `Json.member?`, `Json.text?`, `Json.items?` — the parts of a tree that schemas are read
  through.
* `Json.same` — equality that ignores the order of members and tells `1` from `1.0`.
* `Json.collapse` — a tree in which no object states a member twice.
* `Json.depth` — how deep arrays and objects nest.

## Design Notes

Every function on trees recurses on the data, with one companion for lists of items and one for
lists of members.  A text may state a member twice; readers keep both until `collapse` drops the
earlier value, so that those who must refuse a repeated member still see it.
-/

namespace AvroBindings

/-- A number: an integer, or a finite binary64 number. -/
inductive JsonNumber where
  | int (value : Int)
  | float (value : Binary64)
deriving DecidableEq

/-- Numbers agree if they are kept the same way and are numerically equal. -/
def JsonNumber.same : JsonNumber → JsonNumber → Bool
  | .int m, .int n => m == n
  | .float x, .float y => x.numEq y
  | _, _ => false

/-- A JSON tree. -/
inductive Json where
  | null
  | bool (value : Bool)
  | number (value : JsonNumber)
  | string (value : String)
  | array (items : List Json)
  | object (members : List (String × Json))
deriving Inhabited

namespace Json

/-- The value of a member of an object. -/
def member? (key : String) : Json → Option Json
  | .object members => members.lookup key
  | _ => none

/-- The text of a string. -/
def text? : Json → Option String
  | .string value => some value
  | _ => none

/-- The items of an array. -/
def items? : Json → Option (List Json)
  | .array items => some items
  | _ => none

/-- The text of a member that is a string. -/
def textMember? (key : String) (json : Json) : Option String :=
  (json.member? key).bind text?

/-! ### Equality -/

mutual

/-- Equality of trees up to the order of members. -/
def same : Json → Json → Bool
  | .null, .null => true
  | .bool a, .bool b => a == b
  | .number m, .number n => m.same n
  | .string s, .string t => s == t
  | .array xs, .array ys => sameItems xs ys
  | .object ms, .object ns => ms.length == ns.length && sameMembers ms ns
  | _, _ => false

/-- Equality item by item. -/
def sameItems : List Json → List Json → Bool
  | [], [] => true
  | x :: xs, y :: ys => x.same y && sameItems xs ys
  | _, _ => false

/-- Whether every member of the first list has an equal one in the second. -/
def sameMembers : List (String × Json) → List (String × Json) → Bool
  | [], _ => true
  | (k, v) :: ms, ns =>
    (match ns.lookup k with
      | some w => v.same w
      | none => false) && sameMembers ms ns

end

/-! ### Repeated members -/

mutual

/-- Drops the earlier values of repeated members: the last value stands at the first place. -/
def collapse : Json → Json
  | .array items => .array (collapseItems items)
  | .object members => .object (Entries.ofPairs (collapseMembers members))
  | json => json

/-- `collapse` on every item. -/
def collapseItems : List Json → List Json
  | [] => []
  | x :: xs => x.collapse :: collapseItems xs

/-- `collapse` on the value of every member. -/
def collapseMembers : List (String × Json) → List (String × Json)
  | [] => []
  | (k, v) :: ms => (k, v.collapse) :: collapseMembers ms

end

/-! ### Depth -/

mutual

/-- The nesting depth: nought for a scalar, one more than the deepest part for an array or
object. -/
def depth : Json → Nat
  | .array items => itemsDepth items + 1
  | .object members => membersDepth members + 1
  | _ => 0

/-- The depth of the deepest item. -/
def itemsDepth : List Json → Nat
  | [] => 0
  | x :: xs => max x.depth (itemsDepth xs)

/-- The depth of the deepest member. -/
def membersDepth : List (String × Json) → Nat
  | [] => 0
  | (_, v) :: ms => max v.depth (membersDepth ms)

end

end Json

end AvroBindings
