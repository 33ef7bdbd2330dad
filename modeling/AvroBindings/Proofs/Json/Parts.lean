import AvroBindings.Json.Basic
import AvroBindings.Proofs.Entries

/-!
# Parts of JSON trees

The items of an array and the values of the members of an object are less deep than the tree
they stand in, and what holds of a tree whenever it holds of these holds of every tree.

## Main Definitions

* `Json.Within` — a tree stands somewhere inside another.

## Main Statements

* `Json.depth_lt_of_mem_array`, `Json.depth_lt_of_mem_object` — parts are less deep.
* `Json.Within.depth_lt` — so is whatever stands inside.
* `Json.induction` — induction on a tree, with the hypothesis on all of its parts.
-/

namespace AvroBindings.Json

theorem textMember?_eq_some_iff {key text : String} {json : Json} :
    json.textMember? key = some text ↔ json.member? key = some (.string text) := by
  rw [textMember?, Option.bind_eq_some_iff]
  constructor
  · rintro ⟨member, hmember, htext⟩
    cases member with
    | string value => rwa [← Option.some.inj htext]
    | _ => contradiction
  · exact fun h => ⟨_, h, rfl⟩

theorem depth_le_itemsDepth {x : Json} {items : List Json} (h : x ∈ items) :
    x.depth ≤ itemsDepth items := by
  induction items with
  | nil => simp at h
  | cons y rest ih =>
      rw [itemsDepth]
      rcases List.mem_cons.1 h with rfl | h
      · exact Nat.le_max_left _ _
      · exact Nat.le_trans (ih h) (Nat.le_max_right _ _)

theorem depth_le_membersDepth {member : String × Json} {members : List (String × Json)}
    (h : member ∈ members) :
    member.2.depth ≤ membersDepth members := by
  induction members with
  | nil => simp at h
  | cons other rest ih =>
      obtain ⟨k, v⟩ := other
      rw [membersDepth]
      rcases List.mem_cons.1 h with rfl | h
      · exact Nat.le_max_left _ _
      · exact Nat.le_trans (ih h) (Nat.le_max_right _ _)

theorem depth_lt_of_mem_array {x : Json} {items : List Json} (h : x ∈ items) :
    x.depth < (Json.array items).depth :=
  Nat.lt_succ_of_le (depth_le_itemsDepth h)

theorem depth_lt_of_mem_object {member : String × Json} {members : List (String × Json)}
    (h : member ∈ members) :
    member.2.depth < (Json.object members).depth :=
  Nat.lt_succ_of_le (depth_le_membersDepth h)

theorem depth_lt_of_lookup {key : String} {x : Json} {members : List (String × Json)}
    (h : members.lookup key = some x) : x.depth < (Json.object members).depth :=
  depth_lt_of_mem_object (Entries.mem_of_lookup h)

/-- A tree stands inside another: it is an item of it or the value that a look-up of a member
finds, or it stands inside a tree that does. -/
inductive Within : Json → Json → Prop
  | item {x : Json} {items : List Json} (member : x ∈ items) : Within x (.array items)
  | member {key : String} {x : Json} {members : List (String × Json)}
      (found : members.lookup key = some x) : Within x (.object members)
  | trans {x y z : Json} (inner : Within x y) (outer : Within y z) : Within x z

/-- What stands inside a tree is less deep. -/
theorem Within.depth_lt {x json : Json} (h : Within x json) : x.depth < json.depth := by
  induction h with
  | item member => exact depth_lt_of_mem_array member
  | member found => exact depth_lt_of_lookup found
  | trans _ _ inner outer => exact Nat.lt_trans inner outer

/-- Induction on a tree, with the hypothesis on every item and on the value of every member. -/
@[elab_as_elim]
theorem induction {motive : Json → Prop} (null : motive .null) (bool : ∀ b, motive (.bool b))
    (number : ∀ n, motive (.number n)) (string : ∀ s, motive (.string s))
    (array : ∀ items, (∀ x ∈ items, motive x) → motive (.array items))
    (object : ∀ members, (∀ member ∈ members, motive member.2) → motive (.object members)) :
    ∀ json, motive json
  | .null => null
  | .bool b => bool b
  | .number n => number n
  | .string s => string s
  | .array items => array items fun x _ => induction null bool number string array object x
  | .object members =>
    object members fun member _ => induction null bool number string array object member.2
termination_by json => json.depth
decreasing_by
  · exact depth_lt_of_mem_array ‹_›
  · exact depth_lt_of_mem_object ‹_›

end AvroBindings.Json
