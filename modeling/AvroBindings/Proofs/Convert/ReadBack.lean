import AvroBindings.Proofs.Convert.Typing

/-!
# Reading the plain form of a value back

What conversion does with unions, null, and the plain forms of lists, maps and records.  The
round trips of other modules are put together from these.

## Main Definitions

* `Refused` — conversion ends with a fault.
* `ReadsBack` — at a type, the plain form of a value is read as that value, with either way of
  matching.

## Main Statements

* `conversion_union_of_unanimous` — a union whose alternatives agree on a value gives that
  value.
* `conversion_null` — null is taken exactly by the types that admit it.
* `ReadsBack.primitive`, `ReadsBack.optional`, `ReadsBack.list`, `ReadsBack.map`,
  `ReadsBack.record` — what reads back part by part reads back.
-/

namespace AvroBindings

open Conversion

/-- Conversion ends with a fault. -/
def Refused (table : Table) (matching : Matching) (ty : Descriptor) (plain : Json) : Prop :=
  ∃ e, (conversion table matching ty plain).run = some (.error e)

/-- What is refused is not taken. -/
theorem Refused.not_taken {table : Table} {matching : Matching} {ty : Descriptor} {plain : Json}
    {v : Value} (h : Refused table matching ty plain) :
    (conversion table matching ty plain).run ≠ some (.ok v) := by
  obtain ⟨e, he⟩ := h
  simp [he]

/-! ## Unions -/

section Union

variable {table : Table} {matching : Matching} {alternatives : List Descriptor} {plain : Json}
  {v : Value}

/-- Of a list on which everything is decided and something holds, the first thing that holds
follows only things that do not. -/
theorem exists_first {α : Type} {P Q : α → Prop} {l : List α} (decided : ∀ x ∈ l, P x ∨ Q x)
    (h : ∃ x ∈ l, P x) :
    ∃ before a after, l = before ++ a :: after ∧ (∀ x ∈ before, Q x) ∧ P a := by
  induction l with
  | nil => simp at h
  | cons x rest ih =>
      rcases decided x List.mem_cons_self with hx | hx
      · exact ⟨[], x, rest, rfl, by simp, hx⟩
      · by_cases hrest : ∃ y ∈ rest, P y
        · obtain ⟨before, a, after, rfl, refused, ha⟩ :=
            ih (fun y hy => decided y (List.mem_cons_of_mem _ hy)) hrest
          exact ⟨x :: before, a, after, rfl, by simpa [hx] using refused, ha⟩
        · obtain ⟨y, hy, hpy⟩ := h
          rcases List.mem_cons.1 hy with rfl | hy
          · exact ⟨[], y, rest, rfl, by simp, hpy⟩
          · exact absurd ⟨y, hy, hpy⟩ hrest

/-- If the alternatives that come first in the exact order either give one value exactly or
refuse the data, and one of them gives it, so does the union. -/
theorem conversion_union_of_order {first second : List Descriptor}
    (order : table.exactOrder alternatives = first ++ second)
    (decided : ∀ ty ∈ first,
      (conversion table .exact ty plain).run = some (.ok v) ∨ Refused table .exact ty plain)
    (h : ∃ ty ∈ first, (conversion table .exact ty plain).run = some (.ok v)) :
    (conversion table matching (.union alternatives) plain).run = some (.ok v) := by
  obtain ⟨before, ty, after, rfl, refused, taken⟩ := exists_first decided h
  rw [List.append_assoc, List.cons_append] at order
  exact conversion_eq_ok_iff.2 (.exactly order refused taken)

/-- **A union whose alternatives agree on a value gives that value.**  Each of them either gives
it exactly or refuses the data, so their order does not matter. -/
theorem conversion_union_of_unanimous
    (decided : ∀ ty ∈ alternatives,
      (conversion table .exact ty plain).run = some (.ok v) ∨ Refused table .exact ty plain)
    (h : ∃ ty ∈ alternatives, (conversion table .exact ty plain).run = some (.ok v)) :
    (conversion table matching (.union alternatives) plain).run = some (.ok v) := by
  obtain ⟨ty, hty, taken⟩ := h
  refine conversion_union_of_order (List.append_nil _).symm (fun other hother => ?_)
    ⟨ty, ?_, taken⟩
  · exact decided other (table.mem_exactOrder.1 hother)
  · exact table.mem_exactOrder.2 hty

/-- **The same for what no alternative takes exactly**: then the alternatives that coerce have
to agree. -/
theorem conversion_union_of_unanimous_coercing
    (inexact : ∀ ty ∈ alternatives, Refused table .exact ty plain)
    (decided : ∀ ty ∈ alternatives, (conversion table .coercing ty plain).run = some (.ok v) ∨
      Refused table .coercing ty plain)
    (h : ∃ ty ∈ alternatives, (conversion table .coercing ty plain).run = some (.ok v)) :
    (conversion table .coercing (.union alternatives) plain).run = some (.ok v) := by
  obtain ⟨before, ty, after, rfl, refused, taken⟩ := exists_first decided h
  exact conversion_eq_ok_iff.2 (.coerced rfl inexact refused taken)

/-- A union refuses what all of its alternatives refuse. -/
theorem refused_union (exact : ∀ ty ∈ alternatives, Refused table .exact ty plain)
    (refused : ∀ ty ∈ alternatives, Refused table matching ty plain) :
    Refused table matching (.union alternatives) plain := by
  refine ⟨.noAlternative plain (alternatives.map Descriptor.text), ?_⟩
  rw [conversion_eq_step]
  exact convertUnion_eq_error_iff.2 ⟨exact, refused, rfl⟩

end Union

/-! ## Null -/

/-- **Null is taken exactly by the types that admit it**, and then as null; all others refuse
it. -/
theorem conversion_null (table : Table) (matching : Matching) (ty : Descriptor) :
    if ty.admitsNull then (conversion table matching ty .null).run = some (.ok .null)
    else Refused table matching ty .null := by
  induction ty using Descriptor.induction generalizing matching with
  | primitive kind =>
      cases kind with
      | null => exact conversion_eq_ok_iff.2 (.primitive rfl)
      | _ => exact ⟨_, by rw [conversion_eq_step]; rfl⟩
  | optional inner => exact conversion_eq_ok_iff.2 .absent
  | union alternatives ih =>
      rw [Descriptor.admitsNull, Descriptor.anyAdmitsNull_eq_any]
      split
      next h =>
        obtain ⟨ty, hty, hnull⟩ := List.any_eq_true.1 h
        refine conversion_union_of_unanimous (fun other hother => ?_) ⟨ty, hty, ?_⟩
        · have hother' := ih other hother .exact
          split at hother'
          · exact .inl hother'
          · exact .inr hother'
        · simpa [hnull] using ih ty hty .exact
      next h =>
        have hnot : ∀ ty ∈ alternatives, ty.admitsNull = false := by simpa using h
        refine refused_union (fun ty hty => ?_) fun ty hty => ?_
        · simpa [hnot ty hty] using ih ty hty .exact
        · simpa [hnot ty hty] using ih ty hty matching
  | list item => exact ⟨_, by rw [conversion_eq_step]; rfl⟩
  | map value => exact ⟨_, by rw [conversion_eq_step]; rfl⟩
  | named name =>
      have hstep := conversion_eq_step table matching (.named name) .null
      rw [convertStep, convertNamed] at hstep
      cases hfind : table.find? name with
      | none => exact ⟨_, by rw [hstep, hfind]; rfl⟩
      | some type =>
          cases type with
          | record r => exact ⟨_, by rw [hstep, hfind]; rfl⟩
          | enum e => exact ⟨_, by rw [hstep, hfind]; rfl⟩

/-- What null is taken as is null. -/
theorem admitsNull_of_taken {table : Table} {matching : Matching} {ty : Descriptor} {v : Value}
    (h : (conversion table matching ty .null).run = some (.ok v)) :
    ty.admitsNull = true ∧ v = .null := by
  have hnull := conversion_null table matching ty
  split at hnull
  next hadmits =>
    have heq := h.symm.trans hnull
    exact ⟨hadmits, by simpa using heq⟩
  next => exact absurd h hnull.not_taken

/-! ## Values that read back -/

theorem Value.keys_entriesToPlain (entries : List (String × Value)) :
    Entries.keys (entriesToPlain entries) = Entries.keys entries := by
  rw [entriesToPlain_eq_map, Entries.keys, List.map_map]
  rfl

/-- The plain form of a field is found under the name of the field. -/
theorem Value.lookup_entriesToPlain {fields : List (String × Value)}
    (hnodup : (Entries.keys fields).Nodup) {entry : String × Value} (hentry : entry ∈ fields) :
    (entriesToPlain fields).lookup entry.1 = some entry.2.toPlain := by
  have hkeys := keys_entriesToPlain fields
  rw [Entries.lookup_eq_some_iff_mem (hkeys ▸ hnodup), entriesToPlain_eq_map]
  exact List.mem_map_of_mem hentry

/-- At a type, the plain form of a value is read as that value, with either way of matching. -/
def ReadsBack (table : Table) (ty : Descriptor) (v : Value) : Prop :=
  ∀ matching, (conversion table matching ty v.toPlain).run = some (.ok v)

namespace ReadsBack

variable {table : Table}

theorem of_admitsNull {ty : Descriptor} (h : ty.admitsNull = true) :
    ReadsBack table ty .null := by
  intro matching
  have hnull := conversion_null table matching ty
  rw [if_pos h] at hnull
  exact hnull

/-- A primitive value reads back at its type. -/
theorem primitive {kind : Primitive} {v : Value} (typed : HasType table (.primitive kind) v) :
    ReadsBack table (.primitive kind) v := by
  intro matching
  refine conversion_eq_ok_iff.2 (.primitive ?_)
  cases typed with
  | int range => rw [Value.toPlain, Primitive.ofPlain, if_pos range]
  | float finite =>
      rw [Value.toPlain, Value.plainFloat, if_pos finite]
      rfl
  | _ => rfl

/-- What reads back at a type reads back where it is optional.  The one value with null as its
plain form that can read back is null itself. -/
theorem optional {inner : Descriptor} {v : Value} (h : ReadsBack table inner v) :
    ReadsBack table (.optional inner) v := by
  intro matching
  by_cases hplain : v.toPlain = .null
  · have htaken := h matching
    rw [hplain] at htaken
    obtain ⟨-, rfl⟩ := admitsNull_of_taken htaken
    exact conversion_eq_ok_iff.2 .absent
  · rw [conversion_optional table matching inner hplain]
    exact h matching

/-- A list reads back if its items do. -/
theorem list {item : Descriptor} {vs : List Value} (h : ∀ v ∈ vs, ReadsBack table item v) :
    ReadsBack table (.list item) (.list vs) := by
  intro matching
  refine conversion_eq_ok_iff.2 (.list ?_)
  rw [Value.itemsToPlain_eq_map, List.forall₂_map_left_iff, List.forall₂_same]
  exact fun v hv => h v hv matching

/-- A map reads back if its values do. -/
theorem map {value : Descriptor} {entries : List (String × Value)}
    (h : ∀ entry ∈ entries, ReadsBack table value entry.2) :
    ReadsBack table (.map value) (.map entries) := by
  intro matching
  refine conversion_eq_ok_iff.2 (.map ?_)
  rw [Value.entriesToPlain_eq_map, List.forall₂_map_left_iff, List.forall₂_same]
  exact fun entry hentry => ⟨rfl, h entry hentry matching⟩

/-- **A record reads back** if each of its fields does at the type the field is declared
with. -/
theorem record {name : String} {r : Record} {fields : List (String × Value)}
    (found : table.find? name = some (.record r)) (distinct : (r.fields.map Field.name).Nodup)
    (names : Entries.keys fields = r.fields.map Field.name)
    (h : ∀ pair ∈ r.fields.zip fields, ReadsBack table pair.1.type pair.2.2) :
    ReadsBack table (.named name) (.record r.name fields) := by
  intro matching
  have hnodup : (Entries.keys fields).Nodup := names ▸ distinct
  have hnames := keys_eq_names_iff.1 names
  have hfields : List.Forall₂ (fun field entry => entry.1 = field.name ∧
      (conversion table).verdicts.TakesField matching (Value.entriesToPlain fields) field
        entry.2)
      r.fields fields := by
    refine List.forall₂_iff_zip.2 ⟨hnames.length_eq, fun {field entry} hpair => ?_⟩
    have hname := List.forall₂_zip hnames hpair
    refine ⟨hname, ?_⟩
    have hlookup := Value.lookup_entriesToPlain hnodup (List.of_mem_zip hpair).2
    rw [hname] at hlookup
    rw [Verdicts.TakesField, hlookup]
    exact h (field, entry) hpair matching
  have htakes : Takes table (conversion table).verdicts matching (.named name)
      (.object (Value.entriesToPlain fields)) (.record r.name (Entries.ofPairs fields)) := by
    refine .record found (fun member hmember => ?_) hfields
    rw [Value.entriesToPlain_eq_map] at hmember
    obtain ⟨entry, hentry, rfl⟩ := List.mem_map.1 hmember
    have hmem : entry.1 ∈ r.fields.map Field.name := names ▸ List.mem_map_of_mem hentry
    exact List.mem_map.1 hmem
  rw [Entries.ofPairs_of_nodup hnodup] at htakes
  exact conversion_eq_ok_iff.2 htakes

end ReadsBack

end AvroBindings
