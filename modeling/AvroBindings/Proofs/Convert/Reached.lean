import AvroBindings.Proofs.Table.Closed

/-!
# What conversion looks up

Conversion looks a name up when it comes to a reference.  What the table holds under names that
are never come to, and in which order its entries stand, does not show in the result.

## Main Definitions

* `Table.AgreesFrom` — two tables find the same under every name that is reached from a type.

## Main Statements

* `convertStep_of_agreesFrom` — one step gives the same with both tables.
* `convertWithin_of_agreesFrom` — so does a whole conversion with any fuel.
* `ofPlain?_of_agreesFrom` — so does conversion, its faults and whether it ends included; in
  particular types that are added later change nothing unless they are reached.

## Design Notes

**Absence is agreed on.**  A name that neither table has is one they agree on, and one that only
one of them has is not: a reference that is not found is refused, and a union may go on to its
next alternative.

**Unequal fuel.**  The fuel of a conversion is computed from all entries of the table, so the
two conversions have different amounts of it.  The runs are therefore compared with equal fuel
first.
-/

namespace AvroBindings

open Conversion

/-! ## Tables that agree -/

/-- **Two tables agree from a type**: under every name that is reached from it, they find the
same or both nothing. -/
def Table.AgreesFrom (table table' : Table) (ty : Descriptor) : Prop :=
  ∀ name, table.Reaches ty (.named name) → table'.find? name = table.find? name

section Agreement

variable {table table' : Table}

/-- Tables that agree from a type agree from whatever a step at the type asks for. -/
theorem Table.AgreesFrom.of_call {matching : Matching} {ty : Descriptor} {plain : Json}
    {call : Call} (h : table.AgreesFrom table' ty)
    (hcall : call ∈ table.calls matching ty plain) :
    table.AgreesFrom table' call.type :=
  fun name hreach => h name (.of_call hcall hreach)

/-- Tables that agree from a type tell alike whether it refers to an enum. -/
theorem Table.AgreesFrom.refersToEnum_eq {ty : Descriptor} (h : table.AgreesFrom table' ty) :
    table'.refersToEnum ty = table.refersToEnum ty := by
  cases ty with
  | named name =>
      show ((table'.find? name).bind NamedType.enum?).isSome =
        ((table.find? name).bind NamedType.enum?).isSome
      rw [h name (.refl _)]
  | _ => rfl

/-- Tables that agree from a union try its alternatives in the same order. -/
theorem Table.AgreesFrom.exactOrder_eq {alternatives : List Descriptor}
    (h : table.AgreesFrom table' (.union alternatives)) :
    table'.exactOrder alternatives = table.exactOrder alternatives := by
  have hrefers : ∀ ty ∈ alternatives, table'.refersToEnum ty = table.refersToEnum ty := by
    intro ty hty
    have hmember : table.AgreesFrom table' ty := fun name hreach => h name (.union hty hreach)
    exact hmember.refersToEnum_eq
  have hothers : ∀ ty ∈ alternatives, (!table'.refersToEnum ty) = !table.refersToEnum ty :=
    fun ty hty => congrArg Bool.not (hrefers ty hty)
  rw [exactOrder, exactOrder, List.filter_congr hrefers, List.filter_congr hothers]

/-! ## Conversions with tables that agree -/

/-- **One step gives the same with both tables**, if they agree from its type: it looks up the
name it is at, or those that its alternatives refer to. -/
theorem convertStep_of_agreesFrom {part : PartConversion} {matching : Matching}
    {ty : Descriptor} {plain : Json} (h : table.AgreesFrom table' ty) :
    convertStep table part matching ty plain = convertStep table' part matching ty plain := by
  cases ty with
  | union alternatives =>
      show convertUnion table part matching alternatives plain =
        convertUnion table' part matching alternatives plain
      rw [convertUnion, convertUnion, h.exactOrder_eq]
  | named name =>
      show convertNamed table part matching name plain =
        convertNamed table' part matching name plain
      rw [convertNamed, convertNamed, h name (.refl _)]
  | _ => rfl

/-- **With equal fuel both tables give the same**, if they agree from the type. -/
theorem convertWithin_of_agreesFrom (fuel : Nat) {matching : Matching} {ty : Descriptor}
    {plain : Json} (h : table.AgreesFrom table' ty) :
    convertWithin table fuel matching ty plain =
      convertWithin table' fuel matching ty plain := by
  induction fuel generalizing matching ty plain with
  | zero => rfl
  | succ fuel ih =>
      calc convertStep table (convertWithin table fuel) matching ty plain
          = convertStep table (convertWithin table' fuel) matching ty plain :=
            convertStep_congr fun call hcall => ih (h.of_call hcall)
        _ = convertStep table' (convertWithin table' fuel) matching ty plain :=
          convertStep_of_agreesFrom h

/-- A conversion has the same result with both tables, if they agree from its type; if it ends
with one, it ends with the other. -/
theorem conversion_of_agreesFrom {matching : Matching} {ty : Descriptor} {plain : Json}
    (h : table.AgreesFrom table' ty) :
    (conversion table' matching ty plain).run = (conversion table matching ty plain).run := by
  refine Option.ext fun r => ⟨fun hr => ?_, fun hr => ?_⟩
  · have hwithin : (convertWithin table' _ matching ty plain).run = some r := hr
    rw [← convertWithin_of_agreesFrom _ h] at hwithin
    exact conversion_eq_of_convertWithin hwithin
  · have hwithin : (convertWithin table _ matching ty plain).run = some r := hr
    rw [convertWithin_of_agreesFrom _ h] at hwithin
    exact conversion_eq_of_convertWithin hwithin

end Agreement

/-! ## Tables that grow -/

/-- Types of other names do not change what is found under a name. -/
theorem Table.find?_insertAll_of_ne {table : Table} {types : List NamedType} {name : String}
    (h : ∀ type ∈ types, type.name ≠ name) :
    (types.foldl insert table).find? name = table.find? name := by
  induction types generalizing table with
  | nil => rfl
  | cons type rest ih =>
      rw [List.forall_mem_cons] at h
      rw [List.foldl_cons, ih h.2, find?, insert, Entries.lookup_insert, if_neg (Ne.symm h.1)]
      rfl

/-- A table agrees with what it becomes when types are added whose names are not reached. -/
theorem Table.agreesFrom_insertAll {table : Table} {types : List NamedType} {ty : Descriptor}
    (h : ∀ type ∈ types, ¬table.Reaches ty (.named type.name)) :
    table.AgreesFrom (types.foldl insert table) ty := by
  intro name hreach
  refine find?_insertAll_of_ne fun type htype heq => ?_
  exact h type htype (heq ▸ hreach)

/-- **Conversion depends only on what it can reach.**  With two tables that agree on every name
reached from a type, the absent ones included, plain data has the same value at the type, or the
same fault, or with neither table an end.  So types that are added to a table, or replaced in
it, change nothing for the types that do not reach them. -/
theorem ofPlain?_of_agreesFrom (table : Table) (ty : Descriptor) (plain : Json) :
    (∀ table' : Table,
      (∀ name, table.Reaches ty (.named name) → table'.find? name = table.find? name) →
      Value.ofPlain? table' ty plain = Value.ofPlain? table ty plain) ∧
    ∀ types : List NamedType, (∀ type ∈ types, ¬table.Reaches ty (.named type.name)) →
      Value.ofPlain? (types.foldl Table.insert table) ty plain =
        Value.ofPlain? table ty plain := by
  have hagrees : ∀ table' : Table, table.AgreesFrom table' ty →
      Value.ofPlain? table' ty plain = Value.ofPlain? table ty plain :=
    fun table' h => conversion_of_agreesFrom h
  exact ⟨hagrees, fun types htypes => hagrees _ (Table.agreesFrom_insertAll htypes)⟩

/-- The entries of `Table.nodes` the other way round, with an enum between them. -/
def Table.nodesAround : Table :=
  ⟨[("t.Node", .record ⟨"t.Node",
      [⟨"kind", .union [.primitive .float, .primitive .string, .named "t.Choice"], none, none⟩,
        ⟨"weight", .primitive .float, some (.number (.int 0)), none⟩,
        ⟨"next", .optional (.named "t.Node"), none, none⟩], none⟩),
    ("t.Late", .enum ⟨"t.Late", ["NEW"], none⟩),
    ("t.Choice", .enum ⟨"t.Choice", ["EnumA", "EnumB"], none⟩)]⟩

/-- Nodes come to nodes and choices only. -/
theorem mem_of_reaches_nodes {name : String}
    (h : Table.nodes.Reaches (.named "t.Node") (.named name)) :
    name ∈ ["t.Node", "t.Choice"] := by
  have closed : ∀ key ∈ ["t.Node", "t.Choice"], ∀ r, Table.nodes.find? key = some (.record r) →
      ∀ field ∈ r.fields, field.type.references ⊆ ["t.Node", "t.Choice"] := by
    intro key hkey r found field hfield
    rcases List.mem_pair.1 hkey with rfl | rfl
    · cases found
      rcases hfield with _ | ⟨_, _ | ⟨_, _ | ⟨_, ⟨⟩⟩⟩⟩ <;> decide
    · cases found
  exact h.references_subset closed (by decide) (List.mem_singleton_self name)

/-- A symbol, a node inside a node and a fault in one are the same with both tables, and when
the enum is added. -/
theorem ofPlain?_of_agreesFrom_nodes :
    (∀ name, Table.nodes.Reaches (.named "t.Node") (.named name) →
      Table.nodesAround.find? name = Table.nodes.find? name) ∧
    (∀ type ∈ [NamedType.enum ⟨"t.Late", ["NEW"], none⟩],
      ¬Table.nodes.Reaches (.named "t.Node") (.named type.name)) ∧
    Value.ofPlain? Table.nodesAround (.named "t.Node")
      (.object [("next", .object [("kind", .bool true)])]) =
      Value.ofPlain? Table.nodes (.named "t.Node")
        (.object [("next", .object [("kind", .bool true)])]) ∧
    Value.ofPlain? (Table.nodes.insert (.enum ⟨"t.Late", ["NEW"], none⟩)) (.named "t.Node")
        (.object [("kind", .string "EnumB")]) = some (.ok (.node (.enum "EnumB"))) := by
  have hagrees : ∀ name, Table.nodes.Reaches (.named "t.Node") (.named name) →
      Table.nodesAround.find? name = Table.nodes.find? name := by
    intro name hreach
    rcases List.mem_pair.1 (mem_of_reaches_nodes hreach) with rfl | rfl <;> rfl
  have hlate : ∀ type ∈ [NamedType.enum ⟨"t.Late", ["NEW"], none⟩],
      ¬Table.nodes.Reaches (.named "t.Node") (.named type.name) := by
    intro type htype hreach
    obtain rfl := List.mem_singleton.1 htype
    have hmem := mem_of_reaches_nodes hreach
    exact absurd hmem (by decide)
  have hread :
      Value.ofPlain? Table.nodes (.named "t.Node") (.object [("kind", .string "EnumB")]) =
      some (.ok (.node (.enum "EnumB"))) := rfl
  exact ⟨hagrees, hlate, (ofPlain?_of_agreesFrom Table.nodes (.named "t.Node") _).1 _ hagrees,
    ((ofPlain?_of_agreesFrom Table.nodes (.named "t.Node") _).2 _ hlate).trans hread⟩

end AvroBindings
