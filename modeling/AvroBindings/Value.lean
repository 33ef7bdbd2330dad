import AvroBindings.Json.Basic

/-!
# Typed values

The values of generated types: what a Python program holds, as data.

## Main Definitions

* `Value` — a typed value.
* `Value.toPlain` — the value as plain JSON data.
* `Value.same` — equality that ignores the order of map entries and record fields.
* `Value.field?` — a field of a record.

## Design Notes

A record keeps its fields in the order of declaration and a map its entries in the order of the
data.  Plain data has no form for infinities and NaNs; they become null.
-/

namespace AvroBindings

/-- A value of some type. -/
inductive Value where
  | null
  | boolean (value : Bool)
  | int (value : Int)
  | float (value : Binary64)
  | string (value : String)
  /-- One symbol of an enum. -/
  | enum (symbol : String)
  | list (items : List Value)
  | map (entries : List (String × Value))
  /-- A value of the record of this full name. -/
  | record (name : String) (fields : List (String × Value))
deriving Inhabited

namespace Value

/-- The plain form of a float. -/
def plainFloat (x : Binary64) : Json :=
  if x.isFinite then .number (.float x) else .null

mutual

/-- The value as plain data: records become objects and symbols become strings. -/
def toPlain : Value → Json
  | .null => .null
  | .boolean b => .bool b
  | .int n => .number (.int n)
  | .float x => plainFloat x
  | .string s => .string s
  | .enum s => .string s
  | .list items => .array (itemsToPlain items)
  | .map entries => .object (entriesToPlain entries)
  | .record _ fields => .object (entriesToPlain fields)

/-- The items as plain data. -/
def itemsToPlain : List Value → List Json
  | [] => []
  | v :: rest => v.toPlain :: itemsToPlain rest

/-- The values of the entries as plain data. -/
def entriesToPlain : List (String × Value) → List (String × Json)
  | [] => []
  | (k, v) :: rest => (k, v.toPlain) :: entriesToPlain rest

end

mutual

/-- Equality of values up to the order of entries and fields. -/
def same : Value → Value → Bool
  | .null, .null => true
  | .boolean a, .boolean b => a == b
  | .int m, .int n => m == n
  | .float x, .float y => x.numEq y
  | .string s, .string t => s == t
  | .enum s, .enum t => s == t
  | .list xs, .list ys => sameItems xs ys
  | .map xs, .map ys => xs.length == ys.length && sameEntries xs ys
  | .record m xs, .record n ys => m == n && xs.length == ys.length && sameEntries xs ys
  | _, _ => false

/-- Equality item by item. -/
def sameItems : List Value → List Value → Bool
  | [], [] => true
  | x :: xs, y :: ys => x.same y && sameItems xs ys
  | _, _ => false

/-- Whether every entry of the first list has an equal one in the second. -/
def sameEntries : List (String × Value) → List (String × Value) → Bool
  | [], _ => true
  | (k, v) :: rest, others =>
    (match others.lookup k with
      | some w => v.same w
      | none => false) && sameEntries rest others

end

/-- A field of a record. -/
def field? (name : String) : Value → Option Value
  | .record _ fields => fields.lookup name
  | _ => none

/-- The companion of `toPlain` on lists is a map. -/
theorem itemsToPlain_eq_map (items : List Value) : itemsToPlain items = items.map toPlain := by
  induction items with
  | nil => rfl
  | cons v rest ih => simp [itemsToPlain, ih]

/-- The companion of `toPlain` on entries is a map. -/
theorem entriesToPlain_eq_map (entries : List (String × Value)) :
    entriesToPlain entries = entries.map fun entry => (entry.1, entry.2.toPlain) := by
  induction entries with
  | nil => rfl
  | cons entry rest ih => obtain ⟨k, v⟩ := entry; simp [entriesToPlain, ih]

end Value

end AvroBindings
