import AvroBindings.Proofs.Convert.Fuel
import AvroBindings.Proofs.Json.WellFormed

/-!
# Typing of converted values

What it is for a value to have a type in a table, and that conversion gives only values of the
type it was asked for.

## Main Definitions

* `HasType` — a value has a type in a table.
* `Table.distinctFields`, `Table.wellFormed` — tables whose records repeat no field name, and
  tables whose defaults are well-formed trees.

## Main Statements

* `hasType_of_conversion` — a value that conversion gives has the type.
* `ofPlain?_hasType` — the same of `Value.ofPlain?`.
-/

namespace AvroBindings

open Conversion

/-- Induction on a type, with the hypothesis on every alternative of a union. -/
@[elab_as_elim]
theorem Descriptor.induction {motive : Descriptor → Prop}
    (primitive : ∀ kind, motive (.primitive kind))
    (optional : ∀ inner, motive inner → motive (.optional inner))
    (union : ∀ alternatives, (∀ ty ∈ alternatives, motive ty) → motive (.union alternatives))
    (list : ∀ item, motive item → motive (.list item))
    (map : ∀ value, motive value → motive (.map value)) (named : ∀ name, motive (.named name)) :
    ∀ ty, motive ty
  | .primitive kind => primitive kind
  | .optional inner => optional inner (induction primitive optional union list map named inner)
  | .union alternatives =>
    union alternatives fun ty _ => induction primitive optional union list map named ty
  | .list item => list item (induction primitive optional union list map named item)
  | .map value => map value (induction primitive optional union list map named value)
  | .named name => named name

/-! ## Tables -/

/-- Whether the fields of every record have different names. -/
def Table.distinctFields (table : Table) : Bool :=
  table.entries.all fun entry =>
    match entry.2 with
    | .record r => decide (r.fields.map Field.name).Nodup
    | .enum _ => true

theorem Table.nodup_of_find? {table : Table} (distinct : table.distinctFields = true)
    {name : String} {r : Record} (found : table.find? name = some (.record r)) :
    (r.fields.map Field.name).Nodup := by
  have hentry := List.all_eq_true.1 distinct (name, .record r) (Entries.mem_of_lookup found)
  exact of_decide_eq_true hentry

/-- Whether all defaults are well-formed trees. -/
def Table.wellFormed (table : Table) : Bool := Json.itemsWellFormed table.defaults

/-- The data that a field is converted from is well formed: it stands in the object or is a
default. -/
theorem Table.wellFormed_part {table : Table} (hdefaults : table.wellFormed = true)
    {name : String} {r : Record} {field : Field} {members : List (String × Json)} {plain : Json}
    (found : table.find? name = some (.record r)) (hfield : field ∈ r.fields)
    (hmembers : (Json.object members).wellFormed = true)
    (hplain : (members.lookup field.name).or field.default = some plain) :
    plain.wellFormed = true := by
  rcases Option.or_eq_some_iff.1 hplain with hlookup | ⟨-, hdefault⟩
  · exact Json.wellFormed_of_lookup hmembers hlookup
  · have hmem : plain ∈ table.defaults :=
      List.mem_filterMap.2 ⟨field, Table.mem_fields found hfield, hdefault⟩
    exact Json.itemsWellFormed_iff.1 hdefaults plain hmem

/-- A table with an enum and a record that refers to the enum and to itself.  One field of the
record is a union, one has a default that is widened, and one may be absent. -/
def Table.nodes : Table :=
  ⟨[("t.Choice", .enum ⟨"t.Choice", ["EnumA", "EnumB"], none⟩),
    ("t.Node", .record ⟨"t.Node",
      [⟨"kind", .union [.primitive .float, .primitive .string, .named "t.Choice"], none, none⟩,
        ⟨"weight", .primitive .float, some (.number (.int 0)), none⟩,
        ⟨"next", .optional (.named "t.Node"), none, none⟩], none⟩)]⟩

/-- A node with the default weight and no next one. -/
def Value.node (kind : Value) : Value :=
  .record "t.Node" [("kind", kind), ("weight", .float (.ofInt 0)), ("next", .null)]

/-! ## Typing -/

/-- **A value has a type in a table.**  A record carries the record's own name and exactly its
declared fields in the order of declaration. -/
inductive HasType (table : Table) : Descriptor → Value → Prop
  | null : HasType table (.primitive .null) .null
  | boolean (b : Bool) : HasType table (.primitive .boolean) (.boolean b)
  | int {n : Int} (range : fitsWord n = true) : HasType table (.primitive .integer) (.int n)
  | float {x : Binary64} (finite : x.isFinite = true) :
      HasType table (.primitive .float) (.float x)
  | string (s : String) : HasType table (.primitive .string) (.string s)
  | absent (inner : Descriptor) : HasType table (.optional inner) .null
  | present {inner : Descriptor} {v : Value} (h : HasType table inner v) :
      HasType table (.optional inner) v
  | union {alternatives : List Descriptor} {ty : Descriptor} {v : Value}
      (alternative : ty ∈ alternatives) (h : HasType table ty v) :
      HasType table (.union alternatives) v
  | list {item : Descriptor} {vs : List Value} (h : ∀ v ∈ vs, HasType table item v) :
      HasType table (.list item) (.list vs)
  | map {value : Descriptor} {entries : List (String × Value)}
      (h : ∀ entry ∈ entries, HasType table value entry.2) :
      HasType table (.map value) (.map entries)
  | enum {name symbol : String} {e : Enumeration} (found : table.find? name = some (.enum e))
      (declared : symbol ∈ e.symbols) : HasType table (.named name) (.enum symbol)
  | record {name own : String} {r : Record} {fields : List (String × Value)}
      (found : table.find? name = some (.record r)) (named : own = r.name)
      (names : Entries.keys fields = r.fields.map Field.name)
      (h : ∀ pair ∈ r.fields.zip fields, HasType table pair.1.type pair.2.2) :
      HasType table (.named name) (.record own fields)

/-- Null has every type that admits it. -/
theorem HasType.of_admitsNull {table : Table} {ty : Descriptor} (h : ty.admitsNull = true) :
    HasType table ty .null := by
  induction ty using Descriptor.induction with
  | primitive kind =>
      cases kind with
      | null => exact .null
      | _ => simp [Descriptor.admitsNull] at h
  | optional inner => exact .absent inner
  | union alternatives ih =>
      rw [Descriptor.admitsNull, Descriptor.anyAdmitsNull_eq_any, List.any_eq_true] at h
      obtain ⟨ty, hty, hnull⟩ := h
      exact .union hty (ih ty hty hnull)
  | list item => simp [Descriptor.admitsNull] at h
  | map value => simp [Descriptor.admitsNull] at h
  | named name => simp [Descriptor.admitsNull] at h

/-! ## Soundness -/

/-- A primitive value has its primitive type; an integer that is widened stays finite. -/
theorem Primitive.hasType_of_ofPlain {table : Table} {kind : Primitive} {matching : Matching}
    {plain : Json} {v : Value} (hplain : plain.wellFormed = true)
    (h : kind.ofPlain matching plain = .ok v) :
    HasType table (.primitive kind) v := by
  unfold Primitive.ofPlain at h
  split at h
  · obtain rfl := Except.ok.inj h
    exact .null
  · obtain rfl := Except.ok.inj h
    exact .boolean _
  · split at h
    next hfits =>
      obtain rfl := Except.ok.inj h
      exact .int hfits
    next => contradiction
  · obtain rfl := Except.ok.inj h
    exact .float hplain
  · next n =>
    split at h
    next =>
      obtain rfl := Except.ok.inj h
      exact .float (Json.isFinite_ofInt_of_wellFormed hplain)
    next => contradiction
  · obtain rfl := Except.ok.inj h
    exact .string _
  · contradiction

/-- Entries are named like fields, in order, exactly if each is named like its field. -/
theorem keys_eq_names_iff {fields : List Field} {entries : List (String × Value)} :
    Entries.keys entries = fields.map Field.name ↔
      List.Forall₂ (fun field entry => entry.1 = field.name) fields entries := by
  induction fields generalizing entries with
  | nil => simp [Entries.keys]
  | cons field rest ih =>
      cases entries with
      | nil => simp [Entries.keys]
      | cons entry others =>
          rw [List.forall₂_cons, ← ih, Entries.keys, List.map_cons, List.map_cons,
            List.cons.injEq,
          Entries.keys]

/-- **Conversion is sound.**  What conversion gives for well-formed data has the type, with
either way of matching. -/
theorem hasType_of_conversion {table : Table} (distinct : table.distinctFields = true)
    (hdefaults : table.wellFormed = true) {matching : Matching} {ty : Descriptor} {plain : Json}
    {v : Value} (hplain : plain.wellFormed = true)
    (h : (conversion table matching ty plain).run = some (.ok v)) :
    HasType table ty v := by
  revert hplain
  refine conversion_induction (motive := fun _ ty plain v => plain.wellFormed = true →
    HasType table ty v) ?_ h
  intro matching ty plain v step hplain
  cases step with
  | primitive h => exact Primitive.hasType_of_ofPlain hplain h
  | absent => exact .absent _
  | present _ h => exact .present (h.2 hplain)
  | exactly order _ h =>
      have hmem := table.mem_exactOrder.1 (order ▸ List.mem_append_right _ List.mem_cons_self)
      exact .union hmem (h.2 hplain)
  | coerced _ _ _ h => exact .union (List.mem_append_right _ List.mem_cons_self) (h.2 hplain)
  | list h =>
      rw [Json.wellFormed_array_iff] at hplain
      refine .list fun v hv => ?_
      obtain ⟨x, hx, -, htype⟩ := exists_left_of_forall₂ h hv
      exact htype (hplain x hx)
  | map h =>
      rw [Json.wellFormed_object_iff] at hplain
      refine .map fun entry hentry => ?_
      obtain ⟨member, hmember, -, -, htype⟩ := exists_left_of_forall₂ h hentry
      exact htype (hplain.2 member hmember)
  | enum found h => exact .enum found h
  | record found declared h =>
      have hkeys := keys_eq_names_iff.2 (h.imp fun _ _ hentry => hentry.1)
      have hnodup := Table.nodup_of_find? distinct found
      rw [Entries.ofPairs_of_nodup (hkeys ▸ hnodup)]
      refine .record found rfl hkeys fun ⟨field, name, v⟩ hpair => ?_
      have hfield := (List.of_mem_zip hpair).1
      obtain ⟨-, htaken⟩ := List.forall₂_zip h hpair
      -- A field without data is null; it is typed because conversion and typing agree on what
      -- admits null.
      unfold Verdicts.TakesField at htaken
      split at htaken
      next part hpart =>
        exact htaken.2 (Table.wellFormed_part hdefaults found hfield hplain hpart)
      next =>
        obtain ⟨hnull, rfl⟩ := htaken
        exact .of_admitsNull hnull

/-- **What plain data is read as has the type it was read at.** -/
theorem ofPlain?_hasType {table : Table} (distinct : table.distinctFields = true)
    (hdefaults : table.wellFormed = true) {ty : Descriptor} {plain : Json} {v : Value}
    (hplain : plain.wellFormed = true) (h : Value.ofPlain? table ty plain = some (.ok v)) :
    HasType table ty v := by
  rw [Value.ofPlain?_eq_conversion] at h
  exact hasType_of_conversion distinct hdefaults hplain h

/-- A node of which only one field is given: a symbol becomes a value of the enum, the default
of the weight is widened and the next node is null. -/
theorem ofPlain?_hasType_node :
    Table.nodes.distinctFields = true ∧ Table.nodes.wellFormed = true ∧
      (Json.object [("kind", .string "EnumB")]).wellFormed = true ∧
      Value.ofPlain? Table.nodes (.named "t.Node") (.object [("kind", .string "EnumB")]) =
        some (.ok (.node (.enum "EnumB"))) ∧
      HasType Table.nodes (.named "t.Node") (.node (.enum "EnumB")) := by
  have distinct : Table.nodes.distinctFields = true := by decide
  have hdefaults : Table.nodes.wellFormed = true := by decide
  have hplain : (Json.object [("kind", .string "EnumB")]).wellFormed = true := by decide
  exact ⟨distinct, hdefaults, hplain, rfl, ofPlain?_hasType distinct hdefaults hplain rfl⟩

end AvroBindings
