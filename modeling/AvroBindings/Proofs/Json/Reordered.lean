import AvroBindings.Proofs.Json.WellFormed

/-!
# The order of members

JSON trees that differ only in the order in which the members of their objects stand.

## Main Definitions

* `Json.Reordered` — equality up to the order of members, in objects at any depth.

## Main Statements

* `Json.Reordered.refl` — a tree is a reordering of itself.
* `Json.Reordered.related` — the members of an object and of its reordering are related as maps.
-/

namespace AvroBindings.Json

/-- **Two trees are equal up to the order of members**: the members of an object change places,
and then each value is reordered in itself. -/
inductive Reordered : Json → Json → Prop
  | null : Reordered .null .null
  | bool (b : Bool) : Reordered (.bool b) (.bool b)
  | number (n : JsonNumber) : Reordered (.number n) (.number n)
  | string (s : String) : Reordered (.string s) (.string s)
  | array {items others : List Json} (length : items.length = others.length)
      (h : ∀ pair ∈ items.zip others, Reordered pair.1 pair.2) :
      Reordered (.array items) (.array others)
  | object {members between others : List (String × Json)} (order : members.Perm between)
      (keys : Entries.keys between = Entries.keys others)
      (h : ∀ pair ∈ between.zip others, Reordered pair.1.2 pair.2.2) :
      Reordered (.object members) (.object others)

namespace Reordered

theorem refl (json : Json) : json.Reordered json := by
  induction json using Json.induction with
  | null => exact .null
  | bool b => exact .bool b
  | number n => exact .number n
  | string s => exact .string s
  | array items ih =>
      have hsame : List.Forall₂ Reordered items items := List.forall₂_same.2 ih
      exact .array rfl fun pair hpair => List.forall₂_zip hsame hpair
  | object members ih =>
      have hsame :
          List.Forall₂ (fun member other => Reordered member.2 other.2) members members :=
        List.forall₂_same.2 ih
      exact .object (.refl _) rfl fun pair hpair => List.forall₂_zip hsame hpair

/-- Reordering keeps null apart from everything else. -/
theorem null_iff {json other : Json} (h : json.Reordered other) :
    json = .null ↔ other = .null := by
  cases h <;> simp

/-- **The members of an object and of its reordering are related as maps.** -/
theorem related {members others : List (String × Json)}
    (wellFormed : (Json.object members).wellFormed = true)
    (h : (Json.object members).Reordered (.object others)) :
    Entries.Related (fun json other => json.wellFormed = true ∧ json.Reordered other) members
      others := by
  obtain ⟨hnodup, hmembers⟩ := wellFormed_object_iff.1 wellFormed
  cases h with
  | @object _ between _ order keys h =>
      have hkeys := Entries.keys_eq_iff.1 keys
      have hpairs : List.Forall₂ (fun member other => member.1 = other.1 ∧
          member.2.wellFormed = true ∧ member.2.Reordered other.2) between others := by
        refine List.forall₂_iff_zip.2 ⟨hkeys.length_eq, fun {member other} hpair => ?_⟩
        have hmember := order.mem_iff.2 (List.of_mem_zip hpair).1
        exact ⟨List.forall₂_zip hkeys hpair, hmembers member hmember, h (member, other) hpair⟩
      have hbetween : (Entries.keys between).Nodup := (order.map Prod.fst).nodup_iff.1 hnodup
      have hrelated : Entries.Related
          (fun json other => json.wellFormed = true ∧ json.Reordered other) between
          others := Entries.related_of_forall₂ hbetween hpairs
      refine ⟨hnodup, hrelated.nodup', fun key => ?_⟩
      rw [Entries.lookup_eq_of_perm hnodup order]
      exact hrelated.lookup key

end Reordered

end AvroBindings.Json
