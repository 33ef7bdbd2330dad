import AvroBindings.Proofs.Json.Parts
import AvroBindings.Proofs.Number.Rounding

/-!
# Well-formed JSON trees

The trees that plain data and schemas are: numbers are finite and, if they are integers, of at
most sixty-four bits, and no object states a member twice.  `Json` has more trees than these,
because a text may repeat a member and because a float may be an infinity.

## Main Definitions

* `JsonNumber.wellFormed`, `Json.wellFormed` — the two conditions, decided.

## Main Statements

* `Json.wellFormed_array_iff`, `Json.wellFormed_object_iff` — the conditions on the parts of a
  tree.
* `Json.wellFormed_of_within` — what stands inside a well-formed tree is well formed.
* `Json.collapse_of_wellFormed` — a well-formed tree repeats no member, so nothing of it is
  dropped.
-/

namespace AvroBindings

/-- Whether a number is a finite float or an integer in the signed or the unsigned range of
sixty-four bits. -/
def JsonNumber.wellFormed : JsonNumber → Bool
  | .int n => -0x8000000000000000 ≤ n && n < 0x10000000000000000
  | .float x => x.isFinite

namespace Json

mutual

/-- Whether all numbers are well formed and no object states a member twice. -/
def wellFormed : Json → Bool
  | .number n => n.wellFormed
  | .array items => itemsWellFormed items
  | .object members => decide (Entries.keys members).Nodup && membersWellFormed members
  | _ => true

/-- Whether all items are well formed. -/
def itemsWellFormed : List Json → Bool
  | [] => true
  | x :: rest => x.wellFormed && itemsWellFormed rest

/-- Whether the values of all members are well formed. -/
def membersWellFormed : List (String × Json) → Bool
  | [] => true
  | (_, v) :: rest => v.wellFormed && membersWellFormed rest

end

theorem itemsWellFormed_iff {items : List Json} :
    itemsWellFormed items = true ↔ ∀ x ∈ items, x.wellFormed = true := by
  induction items with
  | nil => simp [itemsWellFormed]
  | cons x rest ih => simp [itemsWellFormed, ih]

theorem membersWellFormed_iff {members : List (String × Json)} :
    membersWellFormed members = true ↔ ∀ member ∈ members, member.2.wellFormed = true := by
  induction members with
  | nil => simp [membersWellFormed]
  | cons member rest ih =>
      obtain ⟨k, v⟩ := member
      simp [membersWellFormed, ih]

/-- An integer of a well-formed tree stays finite when it is widened. -/
theorem isFinite_ofInt_of_wellFormed {n : Int} (h : (Json.number (.int n)).wellFormed = true) :
    (Binary64.ofInt n).isFinite = true := by
  have hrange : -0x8000000000000000 ≤ n ∧ n < 0x10000000000000000 := by
    simpa [wellFormed, JsonNumber.wellFormed] using h
  exact Binary64.isFinite_ofInt (by omega)

/-- An array is well formed exactly if its items are. -/
theorem wellFormed_array_iff {items : List Json} :
    (Json.array items).wellFormed = true ↔ ∀ x ∈ items, x.wellFormed = true := by
  rw [wellFormed, itemsWellFormed_iff]

/-- An object is well formed exactly if it repeats no member and the values of its members
are. -/
theorem wellFormed_object_iff {members : List (String × Json)} :
    (Json.object members).wellFormed = true ↔
      (Entries.keys members).Nodup ∧ ∀ member ∈ members, member.2.wellFormed = true := by
  rw [wellFormed, Bool.and_eq_true, decide_eq_true_iff, membersWellFormed_iff]

/-- The condition on an array with one item singled out. -/
theorem wellFormed_array_middle_iff {before after : List Json} {x : Json} :
    (Json.array (before ++ x :: after)).wellFormed = true ↔
      (∀ z ∈ before, z.wellFormed = true) ∧ x.wellFormed = true ∧
        ∀ z ∈ after, z.wellFormed = true := by
  rw [wellFormed_array_iff, List.forall_mem_append, List.forall_mem_cons]

/-- A member that is found in a well-formed object is well formed. -/
theorem wellFormed_of_lookup {members : List (String × Json)} {key : String} {x : Json}
    (h : (Json.object members).wellFormed = true) (hx : members.lookup key = some x) :
    x.wellFormed = true :=
  (wellFormed_object_iff.1 h).2 (key, x) (Entries.mem_of_lookup hx)

/-- A well-formed object stays one with another well-formed value. -/
theorem wellFormed_insert {members : List (String × Json)} {key : String} {x : Json}
    (h : (Json.object members).wellFormed = true) (hx : x.wellFormed = true) :
    (Json.object (Entries.insert key x members)).wellFormed = true := by
  obtain ⟨hnodup, hvalues⟩ := wellFormed_object_iff.1 h
  refine wellFormed_object_iff.2 ⟨Entries.keys_nodup_insert hnodup, fun member hmember => ?_⟩
  rcases Entries.mem_of_mem_insert hmember with rfl | hmem
  · exact hx
  · exact hvalues member hmem

theorem wellFormed_of_member? {json x : Json} {key : String} (h : json.wellFormed = true)
    (hx : json.member? key = some x) : x.wellFormed = true := by
  cases json with
  | object members => exact wellFormed_of_lookup h hx
  | _ => contradiction

theorem wellFormed_of_within {x json : Json} (h : json.wellFormed = true) (hx : Within x json) :
    x.wellFormed = true := by
  induction hx with
  | item member => exact wellFormed_array_iff.1 h _ member
  | member found => exact wellFormed_of_lookup h found
  | trans _ _ inner outer => exact inner (outer h)

/-! ## Repeated members -/

theorem collapseItems_eq_map (items : List Json) :
    collapseItems items = items.map collapse := by
  induction items with
  | nil => rfl
  | cons x items ih => rw [collapseItems, ih, List.map_cons]

theorem collapseMembers_eq_map (members : List (String × Json)) :
    collapseMembers members = members.map fun member => (member.1, member.2.collapse) := by
  induction members with
  | nil => rfl
  | cons member members ih =>
      obtain ⟨k, v⟩ := member
      rw [collapseMembers, ih, List.map_cons]

/-- **Nothing of a well-formed tree is dropped.** -/
theorem collapse_of_wellFormed {json : Json} (h : json.wellFormed = true) :
    json.collapse = json := by
  induction json using Json.induction with
  | array items ih =>
      rw [wellFormed_array_iff] at h
      have hitems : items.map collapse = items.map id :=
        List.map_congr_left fun x hx => ih x hx (h x hx)
      rw [collapse, collapseItems_eq_map, hitems, List.map_id]
  | object members ih =>
      obtain ⟨hnodup, hmembers⟩ := wellFormed_object_iff.1 h
      have hmap : members.map (fun member => (member.1, member.2.collapse)) =
          members.map id := by
        refine List.map_congr_left fun member hmember => ?_
        rw [ih member hmember (hmembers member hmember)]
        rfl
      rw [collapse, collapseMembers_eq_map, hmap, List.map_id, Entries.ofPairs_of_nodup hnodup]
  | _ => rw [collapse] <;> simp

end Json

end AvroBindings
