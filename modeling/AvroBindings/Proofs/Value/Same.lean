import AvroBindings.Proofs.Entries
import AvroBindings.Value

/-!
# Equality of values up to order

`Value.same`, told by the parts of the values.

## Main Statements

* `Value.sameItems_iff` — lists are equal item by item.
* `Value.same_map`, `Value.same_record` — values whose entries are related as maps are equal.
-/

namespace AvroBindings.Value

theorem sameItems_iff {xs ys : List Value} :
    sameItems xs ys = true ↔ List.Forall₂ (fun x y => x.same y = true) xs ys := by
  induction xs generalizing ys with
  | nil => cases ys <;> simp [sameItems]
  | cons x rest ih => cases ys <;> simp [sameItems, ih]

theorem sameEntries_iff {entries others : List (String × Value)} :
    sameEntries entries others = true ↔
      ∀ entry ∈ entries, ∃ w, others.lookup entry.1 = some w ∧ entry.2.same w = true := by
  induction entries with
  | nil => simp [sameEntries]
  | cons entry rest ih =>
      obtain ⟨k, v⟩ := entry
      cases hlookup : others.lookup k <;> simp [sameEntries, hlookup, ih]

section Related

variable {entries others : List (String × Value)}
  (h : Entries.Related (fun v w => v.same w = true) entries others)

include h

theorem sameEntries_of_related : sameEntries entries others = true := by
  rw [sameEntries_iff]
  intro entry hentry
  exact h.exists_right ((Entries.lookup_eq_some_iff_mem h.nodup).2 hentry)

/-- **Maps are equal** if they have the same keys with equal values. -/
theorem same_map : (Value.map entries).same (.map others) = true := by
  rw [same, h.length_eq, sameEntries_of_related h]
  simp

/-- **Records of one name are equal** if they have the same fields with equal values. -/
theorem same_record (name : String) :
    (Value.record name entries).same (.record name others) = true := by
  rw [same, h.length_eq, sameEntries_of_related h]
  simp

end Related

end AvroBindings.Value
