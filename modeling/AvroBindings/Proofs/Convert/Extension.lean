import AvroBindings.Proofs.Convert.Coercion
import AvroBindings.Proofs.Convert.ReadBack

/-!
# Conversion keeps the data

The plain form of a converted value is the data that was converted, extended.  Nothing of the
data is left out, and apart from integers that are widened to floats nothing of it is altered;
records gain the fields that the data leaves out.

## Main Definitions

* `Extends` — at a type, plain data extends other plain data.
* `Table.Fills` — what a field that the data leaves out is filled with.
* `Record.lastField?` — the field that the value of a name is read for.

## Main Statements

* `extends_of_conversion` — the plain form of the value extends the data, with either way of
  matching.
* `toPlain_extends` — the same of `Value.ofPlain?`.

## Design Notes

**Repeated names.**  A record may declare two fields of one name.  Both are read from the same
member, and the value keeps what was read last, so the relation speaks of the last field of a
name.
-/

namespace AvroBindings

open Conversion

/-! ## Extended data -/

/-- The field that the value of a name is read for: the last one, should the name occur
twice. -/
def Record.lastField? (record : Record) (name : String) : Option Field :=
  record.fields.reverse.find? fun field => field.name == name

/-- What a field that the data leaves out is filled with: the plain form of its converted
default, or null if it has none. -/
def Table.Fills (table : Table) (field : Field) (plain : Json) : Prop :=
  match field.default with
  | some default =>
      ∃ v, Value.ofPlain? table field.type default = some (.ok v) ∧ plain = v.toPlain
  | none => plain = .null

/-- **Plain data extends other plain data**, both read at a type. -/
inductive Extends (table : Table) : Descriptor → Json → Json → Prop
  | same {kind : Primitive} (plain : Json) : Extends table (.primitive kind) plain plain
  | widened (n : Int) :
      Extends table (.primitive .float) (.number (.int n)) (.number (.float (.ofInt n)))
  | absent (inner : Descriptor) : Extends table (.optional inner) .null .null
  | present {inner : Descriptor} {plain plain' : Json} (h : Extends table inner plain plain') :
      Extends table (.optional inner) plain plain'
  | union {alternatives : List Descriptor} {ty : Descriptor} {plain plain' : Json}
      (member : ty ∈ alternatives) (h : Extends table ty plain plain') :
      Extends table (.union alternatives) plain plain'
  | list {item : Descriptor} {items items' : List Json} (length : items.length = items'.length)
      (h : ∀ pair ∈ items.zip items', Extends table item pair.1 pair.2) :
      Extends table (.list item) (.array items) (.array items')
  | map {value : Descriptor} {members members' : List (String × Json)}
      (keys : Entries.keys members = Entries.keys members')
      (h : ∀ pair ∈ members.zip members', Extends table value pair.1.2 pair.2.2) :
      Extends table (.map value) (.object members) (.object members')
  | enum {name : String} (symbol : String) :
      Extends table (.named name) (.string symbol) (.string symbol)
  | record {name : String} {r : Record} {members members' : List (String × Json)}
      (found : table.find? name = some (.record r)) (distinct : (Entries.keys members').Nodup)
      (kept : ∀ key ∈ Entries.keys members, key ∈ Entries.keys members')
      (declared : ∀ key ∈ Entries.keys members', (r.lastField? key).isSome = true)
      (given : ∀ key field plain plain', r.lastField? key = some field →
        members.lookup key = some plain → members'.lookup key = some plain' →
        Extends table field.type plain plain')
      (filled : ∀ key field plain', r.lastField? key = some field → members.lookup key = none →
        members'.lookup key = some plain' → table.Fills field plain') :
      Extends table (.named name) (.object members) (.object members')

/-! ### The value of a record -/

/-- Of entries that are read one by one for the fields of a list, the one that is found under a
name is that of the field found under it. -/
theorem exists_field_of_lookup {R : Field → Value → Prop} {fields : List Field}
    {entries : List (String × Value)} {key : String} {v : Value}
    (h : List.Forall₂ (fun field entry => entry.1 = field.name ∧ R field entry.2) fields
      entries)
    (hlookup : entries.lookup key = some v) :
    ∃ field, (fields.find? fun field => field.name == key) = some field ∧
      field.name = key ∧ R field v := by
  induction h with
  | nil => simp at hlookup
  | @cons field entry fields entries hentry _ ih =>
      obtain ⟨name, w⟩ := entry
      obtain ⟨rfl, hR⟩ := hentry
      by_cases hkey : key = field.name
      · subst hkey
        obtain rfl : w = v := by simpa using hlookup
        exact ⟨field, by simp, rfl, hR⟩
      · rw [List.lookup_cons, beq_eq_false_iff_ne.2 hkey] at hlookup
        rw [List.find?_cons_of_neg (by simpa using Ne.symm hkey)]
        exact ih hlookup

/-- The value of a record has under a name what was read for the last field of the name. -/
theorem Record.exists_lastField_of_lookup {R : Field → Value → Prop} {r : Record}
    {fields : List (String × Value)} {key : String} {plain : Json}
    (h : List.Forall₂ (fun field entry => entry.1 = field.name ∧ R field entry.2) r.fields
      fields)
    (hlookup : (Value.entriesToPlain (Entries.ofPairs fields)).lookup key = some plain) :
    ∃ field v, r.lastField? key = some field ∧ field.name = key ∧ R field v ∧
    plain = v.toPlain := by
  have hmem := Entries.mem_of_lookup hlookup
  rw [Value.entriesToPlain_eq_map] at hmem
  obtain ⟨⟨key', v⟩, hentry, heq⟩ := List.mem_map.1 hmem
  obtain ⟨rfl, rfl⟩ := Prod.mk.inj heq
  have hvalue : fields.reverse.lookup key' = some v := by
    rw [← Entries.lookup_ofPairs]
    exact (Entries.lookup_eq_some_iff_mem (Entries.keys_nodup_ofPairs fields)).2 hentry
  obtain ⟨field, hfield, hname, hR⟩ :=
    exists_field_of_lookup (List.forall₂_reverse_iff.2 h) hvalue
  exact ⟨field, v, hfield, hname, hR, rfl⟩

theorem Primitive.extends_of_ofPlain {table : Table} {kind : Primitive} {matching : Matching}
    {plain : Json} {v : Value} (hplain : plain.wellFormed = true)
    (h : kind.ofPlain matching plain = .ok v) :
    Extends table (.primitive kind) plain v.toPlain := by
  unfold Primitive.ofPlain at h
  split at h
  · obtain rfl := Except.ok.inj h
    exact .same _
  · obtain rfl := Except.ok.inj h
    exact .same _
  · split at h
    next =>
      obtain rfl := Except.ok.inj h
      exact .same _
    next => contradiction
  · next x =>
    obtain rfl := Except.ok.inj h
    have hfinite : x.isFinite = true := hplain
    rw [Value.toPlain, Value.plainFloat, if_pos hfinite]
    exact .same _
  · next n =>
    split at h
    next =>
      obtain rfl := Except.ok.inj h
      rw [Value.toPlain, Value.plainFloat, if_pos (Json.isFinite_ofInt_of_wellFormed hplain)]
      exact .widened n
    next => contradiction
  · obtain rfl := Except.ok.inj h
    exact .same _
  · contradiction

/-! ## Conversion extends -/

/-- **The plain form of the value extends the data**, with either way of matching. -/
theorem extends_of_conversion {table : Table} {matching : Matching} {ty : Descriptor}
    {plain : Json} {v : Value} (hplain : plain.wellFormed = true)
    (h : (conversion table matching ty plain).run = some (.ok v)) :
    Extends table ty plain v.toPlain := by
  revert hplain
  refine conversion_induction (motive := fun _ ty plain v => plain.wellFormed = true →
    Extends table ty plain v.toPlain) ?_ h
  intro matching ty plain v step hplain
  cases step with
  | primitive h => exact Primitive.extends_of_ofPlain hplain h
  | absent => exact .absent _
  | present _ h => exact .present (h.2 hplain)
  | exactly order _ h =>
      have hmem := table.mem_exactOrder.1 (order ▸ List.mem_append_right _ List.mem_cons_self)
      exact .union hmem (h.2 hplain)
  | coerced _ _ _ h => exact .union (List.mem_append_right _ List.mem_cons_self) (h.2 hplain)
  | list h =>
      rw [Json.wellFormed_array_iff] at hplain
      rw [Value.toPlain, Value.itemsToPlain_eq_map]
      refine .list (by simpa using h.length_eq) fun pair hpair => ?_
      rw [List.zip_map_right] at hpair
      obtain ⟨⟨x, v⟩, hmem, rfl⟩ := List.mem_map.1 hpair
      exact (List.forall₂_zip h hmem).2 (hplain x (List.of_mem_zip hmem).1)
  | @map value members entries h =>
      rw [Json.wellFormed_object_iff] at hplain
      rw [Value.toPlain]
      have hkeys : Entries.keys members = Entries.keys entries :=
        Entries.keys_eq_iff.2 (h.imp fun _ _ hentry => hentry.1)
      refine .map (by rw [Value.keys_entriesToPlain, hkeys]) fun pair hpair => ?_
      rw [Value.entriesToPlain_eq_map, List.zip_map_right] at hpair
      obtain ⟨⟨member, entry⟩, hmem, rfl⟩ := List.mem_map.1 hpair
      exact (List.forall₂_zip h hmem).2.2 (hplain.2 member (List.of_mem_zip hmem).1)
  | enum _ _ => exact .enum _
  | @record name r members fields found declared h =>
      have hkeys := keys_eq_names_iff.2 (h.imp fun _ _ hentry => hentry.1)
      rw [Value.toPlain]
      refine .record found ?_ (fun key hkey => ?_) (fun key hkey => ?_)
        (fun key field x x' hfield hlookup hlookup' => ?_)
        fun key field x' hfield hlookup hlookup' => ?_
      · rw [Value.keys_entriesToPlain]
        exact Entries.keys_nodup_ofPairs fields
      · obtain ⟨x, hmember⟩ := Entries.mem_keys.1 hkey
        rw [Value.keys_entriesToPlain, Entries.mem_keys_ofPairs, hkeys]
        exact List.mem_map.2 (declared (key, x) hmember)
      · obtain ⟨x', hx'⟩ := Entries.exists_lookup hkey
        obtain ⟨field, v, hfield, -⟩ := Record.exists_lastField_of_lookup h hx'
        rw [hfield]
        rfl
      · obtain ⟨field', v, hfield', rfl, htaken, rfl⟩ :=
          Record.exists_lastField_of_lookup h hlookup'
        obtain rfl : field = field' := Option.some.inj (hfield.symm.trans hfield')
        rw [Verdicts.TakesField, hlookup, Option.some_or] at htaken
        exact htaken.2 (Json.wellFormed_of_lookup hplain hlookup)
      · obtain ⟨field', v, hfield', rfl, htaken, rfl⟩ :=
          Record.exists_lastField_of_lookup h hlookup'
        obtain rfl : field = field' := Option.some.inj (hfield.symm.trans hfield')
        rw [Verdicts.TakesField, hlookup, Option.none_or] at htaken
        unfold Table.Fills
        cases hdefault : field.default with
        | some default =>
            rw [hdefault] at htaken
            -- The default was read with the matching of the record, which may have been exact.
            exact ⟨v, conversion_coercing htaken.1, rfl⟩
        | none =>
            rw [hdefault] at htaken
            rw [htaken.2]
            rfl

/-- **Conversion keeps the data.**  The plain form of the value that well-formed data is read as
extends the data. -/
theorem toPlain_extends {table : Table} {ty : Descriptor} {plain : Json} {v : Value}
    (hplain : plain.wellFormed = true) (h : Value.ofPlain? table ty plain = some (.ok v)) :
    Extends table ty plain v.toPlain :=
  extends_of_conversion hplain h

/-- A node with an integer as its kind: the integer is widened, the weight is filled with its
default, which is widened too, and the next node with null. -/
theorem toPlain_extends_node :
    (Json.object [("kind", .number (.int 3))]).wellFormed = true ∧
      Value.ofPlain? Table.nodes (.named "t.Node") (.object [("kind", .number (.int 3))]) =
        some (.ok (.node (.float (.ofInt 3)))) ∧
      Extends Table.nodes (.named "t.Node") (.object [("kind", .number (.int 3))])
        (.object
          [("kind", .number (.float (.ofInt 3))), ("weight", .number (.float (.ofInt 0))),
            ("next", .null)]) := by
  have hplain : (Json.object [("kind", .number (.int 3))]).wellFormed = true := by decide
  have htaken :
      Value.ofPlain? Table.nodes (.named "t.Node") (.object [("kind", .number (.int 3))]) =
      some (.ok (.node (.float (.ofInt 3)))) := rfl
  have hnode : (Value.node (.float (.ofInt 3))).toPlain =
      .object [("kind", .number (.float (.ofInt 3))), ("weight", .number (.float (.ofInt 0))),
        ("next", .null)] := by
    have hfinite : ∀ n : Int, n.natAbs ≤ 3 → (Binary64.ofInt n).isFinite = true :=
      fun n hn => Binary64.isFinite_ofInt (by omega)
    simp [Value.node, Value.toPlain, Value.entriesToPlain, Value.plainFloat, hfinite]
  exact ⟨hplain, htaken, hnode ▸ toPlain_extends hplain htaken⟩

end AvroBindings
