import AvroBindings.Proofs.Convert.Faults
import AvroBindings.Proofs.Convert.Typing

/-!
# Where a fault lies

A fault of conversion is that of one part of the data at one part of the type.  The fields in
which it is wrapped are the fields on the way to that part.

## Main Definitions

* `ConversionError.fields` — the records and fields that a fault is wrapped in, from the outside
  in.
* `Table.Leads` — a way from a type and plain data to a part of them, with the fields on it.
* `Table.OwnFault` — the faults that a type has with plain data itself, and not with its parts.
* `Table.Faults` — the ways in which a step fails.

## Main Statements

* `convertStep_faults` — a step fails with a fault of its own, or with that of an item, an
  entry, an inner type or a field.
* `conversion_located` — a fault lies at the end of a way.
* `ofPlain?_located` — the same of `Value.ofPlain?`, with what the fault says of the data it
  lies in.

## Design Notes

**No way into a union.**  A way goes through items, entries, optionals and fields, and there is
none into an alternative of a union: what the alternatives refuse is forgotten, and the union
has one fault of its own.  So the way of a fault that comes out of a union ends at the union.

**Which of several.**  Conversion stops at the first fault, but which of several items or fields
that is does not matter here: the way is to one that does fail, and fails with that fault.
-/

namespace AvroBindings

open Conversion

/-! ## The wrappers of a fault -/

namespace ConversionError

/-- The records and fields that a fault is wrapped in, from the outside in. -/
def fields : ConversionError → List (String × String)
  | .inField record field source => (record, field) :: source.fields
  | _ => []

/-- A fault is its cause in its wrappers. -/
theorem foldr_fields_cause (e : ConversionError) :
    e.fields.foldr (fun field source => .inField field.1 field.2 source) e.cause = e := by
  induction e with
  | inField record field source ih => rw [fields, List.foldr_cons, cause, ih]
  | _ => rfl

end ConversionError

/-! ## Ways and faults -/

/-- **A way from a type and plain data to a part of them**, with the fields on it.  It goes into
items, entries, optionals and fields; a field that is not in the data is entered by its
default. -/
inductive Table.Leads (table : Table) :
    Descriptor → Json → List (String × String) → Descriptor → Json → Prop
  | here (ty : Descriptor) (plain : Json) : Leads table ty plain [] ty plain
  | optional {inner target : Descriptor} {plain part : Json} {fields : List (String × String)}
      (present : plain ≠ .null) (h : Leads table inner plain fields target part) :
      Leads table (.optional inner) plain fields target part
  | item {item target : Descriptor} {items : List Json} {x part : Json}
      {fields : List (String × String)} (member : x ∈ items)
      (h : Leads table item x fields target part) :
      Leads table (.list item) (.array items) fields target part
  | entry {value target : Descriptor} {members : List (String × Json)} {entry : String × Json}
      {part : Json} {fields : List (String × String)} (member : entry ∈ members)
      (h : Leads table value entry.2 fields target part) :
      Leads table (.map value) (.object members) fields target part
  | field {name : String} {r : Record} {members : List (String × Json)} {field : Field}
      {plain part : Json} {target : Descriptor} {fields : List (String × String)}
      (found : table.find? name = some (.record r)) (declared : field ∈ r.fields)
      (stands : (members.lookup field.name).or field.default = some plain)
      (h : Leads table field.type plain fields target part) :
      Leads table (.named name) (.object members) ((r.name, field.name) :: fields) target part

/-- **The faults that a type has with plain data itself.**  They are told from the data, the
type, and what the type refers to; no conversion of a part has a share in them. -/
inductive Table.OwnFault (table : Table) : Descriptor → Json → ConversionError → Prop
  | primitive (kind : Primitive) (plain : Json) :
      OwnFault table (.primitive kind) plain (.mismatch kind.pythonName plain)
  | union (alternatives : List Descriptor) (plain : Json) :
      OwnFault table (.union alternatives) plain
        (.noAlternative plain (alternatives.map Descriptor.text))
  | list {item : Descriptor} {plain : Json} (shape : ∀ items, plain ≠ .array items) :
      OwnFault table (.list item) plain (.mismatch (Descriptor.list item).text plain)
  | map {value : Descriptor} {plain : Json} (shape : ∀ members, plain ≠ .object members) :
      OwnFault table (.map value) plain (.mismatch (Descriptor.map value).text plain)
  | unsupported {name : String} {plain : Json} (missing : table.find? name = none) :
      OwnFault table (.named name) plain (.unsupported name)
  | notObject {name : String} {r : Record} {plain : Json}
      (found : table.find? name = some (.record r))
      (shape : ∀ members, plain ≠ .object members) :
      OwnFault table (.named name) plain (.mismatch name plain)
  | unknownField {name key : String} {r : Record} {members : List (String × Json)}
      (found : table.find? name = some (.record r)) (given : key ∈ Entries.keys members)
      (undeclared : ∀ field ∈ r.fields, field.name ≠ key) :
      OwnFault table (.named name) (.object members) (.unknownField r.name key)
  | missingField {name : String} {r : Record} {members : List (String × Json)} {field : Field}
      (found : table.find? name = some (.record r)) (declared : field ∈ r.fields)
      (absent : (members.lookup field.name).or field.default = none)
      (required : field.type.admitsNull = false) :
      OwnFault table (.named name) (.object members) (.missingField r.name field.name)
  | notString {name : String} {e : Enumeration} {plain : Json}
      (found : table.find? name = some (.enum e)) (shape : ∀ s, plain ≠ .string s) :
      OwnFault table (.named name) plain (.mismatch name plain)
  | unknownSymbol {name symbol : String} {e : Enumeration}
      (found : table.find? name = some (.enum e)) (undeclared : symbol ∉ e.symbols) :
      OwnFault table (.named name) (.string symbol) (.unknownSymbol e.name symbol)

namespace Table.OwnFault

variable {table : Table} {ty : Descriptor} {plain : Json} {e : ConversionError}

/-- A fault of a type's own is not wrapped. -/
theorem fields_eq_nil (h : table.OwnFault ty plain e) : e.fields = [] := by
  cases h <;> rfl

theorem cause_eq (h : table.OwnFault ty plain e) : e.cause = e := by
  cases h <;> rfl

/-- A mismatch carries the data that is refused. -/
theorem eq_of_mismatch {expected : String} {value : Json}
    (h : table.OwnFault ty plain (.mismatch expected value)) :
    value = plain := by
  cases h <;> rfl

/-- The fault of a union is about the data that is refused, and about all alternatives in their
order. -/
theorem eq_of_noAlternative {value : Json} {texts : List String}
    (h : table.OwnFault ty plain (.noAlternative value texts)) :
    value = plain ∧
      ∃ alternatives, ty = .union alternatives ∧ texts = alternatives.map Descriptor.text := by
  cases h with
  | union alternatives plain => exact ⟨rfl, alternatives, rfl, rfl⟩

/-- A union has only one fault of its own. -/
theorem eq_of_union {alternatives : List Descriptor}
    (h : table.OwnFault (.union alternatives) plain e) :
    e = .noAlternative plain (alternatives.map Descriptor.text) := by
  cases h
  rfl

end Table.OwnFault

/-! ## The ways in which a step fails -/

/-- **A step fails**: with a fault of its own, or with the fault of an inner type, an item or an
entry, or with that of a field, which is then wrapped. -/
inductive Table.Faults (table : Table) (faults : Descriptor → Json → ConversionError → Prop) :
    Descriptor → Json → ConversionError → Prop
  | own {ty : Descriptor} {plain : Json} {e : ConversionError} (h : table.OwnFault ty plain e) :
      Faults table faults ty plain e
  | optional {inner : Descriptor} {plain : Json} {e : ConversionError} (present : plain ≠ .null)
      (h : faults inner plain e) : Faults table faults (.optional inner) plain e
  | item {item : Descriptor} {items : List Json} {x : Json} {e : ConversionError}
      (member : x ∈ items) (h : faults item x e) :
      Faults table faults (.list item) (.array items) e
  | entry {value : Descriptor} {members : List (String × Json)} {entry : String × Json}
      {e : ConversionError} (member : entry ∈ members) (h : faults value entry.2 e) :
      Faults table faults (.map value) (.object members) e
  | field {name : String} {r : Record} {members : List (String × Json)} {field : Field}
      {plain : Json} {e : ConversionError} (found : table.find? name = some (.record r))
      (declared : field ∈ r.fields)
      (stands : (members.lookup field.name).or field.default = some plain)
      (h : faults field.type plain e) :
      Faults table faults (.named name) (.object members) (.inField r.name field.name e)

section Step

variable {table : Table} {part : PartConversion} {matching : Matching}

/-- The faults that the conversion of a part ends with. -/
def PartConversion.faults (part : PartConversion) (matching : Matching) (ty : Descriptor)
    (plain : Json) (e : ConversionError) : Prop :=
  (part matching ty plain).run = some (.error e)

theorem convertRecord_faults {name : String} {r : Record} {members : List (String × Json)}
    (found : table.find? name = some (.record r)) :
    FaultsOnly (table.Faults (part.faults matching) (.named name) (.object members))
      (convertRecord part matching r members) := by
  unfold convertRecord
  cases hunknown : members.find? fun member => (r.field? member.1).isNone with
  | some unknown =>
      have hundeclared : ∀ field ∈ r.fields, field.name ≠ unknown.1 := by
        have hnone := List.find?_some hunknown
        simpa [Record.field?] using hnone
      exact .refusal
        (.own (.unknownField found (List.mem_map_of_mem (List.mem_of_find?_eq_some hunknown))
          hundeclared))
  | none =>
      refine .bind (convertFields_faultsOnly fun field hfield => ?_) fun fields => .return _
      unfold convertField
      cases hstands : (members.lookup field.name).or field.default with
      | some plain =>
          have hpart : FaultsOnly (part.faults matching field.type plain)
              (part matching field.type plain) :=
            fun e he => he
          exact hpart.adapt fun e he => .field found hfield hstands he
      | none =>
          cases hnull : field.type.admitsNull with
          | true => exact .return _
          | false => exact .refusal (.own (.missingField found hfield hstands hnull))

theorem convertNamed_faults {name : String} {plain : Json} :
    FaultsOnly (table.Faults (part.faults matching) (.named name) plain)
      (convertNamed table part matching name plain) := by
  unfold convertNamed
  cases hfind : table.find? name with
  | none => exact .refusal (.own (.unsupported hfind))
  | some type =>
      cases type with
      | record r =>
          cases plain with
          | object members => exact convertRecord_faults hfind
          | _ => exact .refusal (.own (.notObject hfind (by simp)))
      | enum enum =>
          intro e he
          have hfault : enum.ofPlain name plain = .error e := Option.some.inj he
          cases plain with
          | string symbol =>
              simp only [Enumeration.ofPlain] at hfault
              split at hfault
              next => contradiction
              next hsymbol =>
                obtain rfl := Except.error.inj hfault
                exact .own (.unknownSymbol hfind (by simpa using hsymbol))
          | _ =>
              obtain rfl := Except.error.inj hfault
              exact .own (.notString hfind (by simp))

/-- **A step fails only in the ways of `Table.Faults`.** -/
theorem convertStep_faults {ty : Descriptor} {plain : Json} :
    FaultsOnly (table.Faults (part.faults matching) ty plain)
      (convertStep table part matching ty plain) := by
  cases ty with
  | primitive kind =>
      intro e he
      rw [Primitive.ofPlain_eq_error (Option.some.inj he)]
      exact .own (.primitive kind plain)
  | optional inner =>
      by_cases hnull : plain = .null
      · subst hnull
        exact .return _
      · rw [convertStep_optional hnull]
        exact fun e he => .optional hnull he
  | union alternatives => exact convertUnion_faultsOnly (.own (.union alternatives plain))
  | list item =>
      cases plain with
      | array items =>
          refine .bind (convertItems_faultsOnly fun x hx => ?_) fun vs => .return _
          exact fun e he => .item hx he
      | _ => exact .refusal (.own (.list (by simp)))
  | map value =>
      cases plain with
      | object members =>
          refine .bind (convertEntries_faultsOnly fun member hmember => ?_) fun vs => .return _
          exact fun e he => .entry hmember he
      | _ => exact .refusal (.own (.map (by simp)))
  | named name => exact convertNamed_faults

end Step

/-! ## Whole conversions -/

/-- **A fault lies at the end of a way**: the fields on the way are its wrappers, and the
conversion of the part that the way leads to fails with its cause, a fault of the part's own. -/
theorem conversion_located {table : Table} {matching : Matching} {ty : Descriptor}
    {plain : Json} {e : ConversionError}
    (h : (conversion table matching ty plain).run = some (.error e)) :
    ∃ target part, table.Leads ty plain e.fields target part ∧
      (conversion table matching target part).run = some (.error e.cause) ∧
      table.OwnFault target part e.cause := by
  suffices hwithin : ∀ fuel ty plain e,
      (convertWithin table fuel matching ty plain).run = some (.error e) →
      ∃ target part, table.Leads ty plain e.fields target part ∧
        (conversion table matching target part).run = some (.error e.cause) ∧
        table.OwnFault target part e.cause by
    exact hwithin _ ty plain e h
  intro fuel
  induction fuel with
  | zero => intro ty plain e h; simp [convertWithin] at h
  | succ fuel ih =>
      intro ty plain e h
      cases convertStep_faults e h with
      | own hown =>
          refine ⟨ty, plain, ?_, ?_, ?_⟩
          · rw [hown.fields_eq_nil]
            exact .here ty plain
          · rw [hown.cause_eq]
            exact conversion_eq_of_convertWithin h
          · rwa [hown.cause_eq]
      | optional present hpart =>
          obtain ⟨target, part, hleads, hend⟩ := ih _ _ _ hpart
          exact ⟨target, part, .optional present hleads, hend⟩
      | item member hpart =>
          obtain ⟨target, part, hleads, hend⟩ := ih _ _ _ hpart
          exact ⟨target, part, .item member hleads, hend⟩
      | entry member hpart =>
          obtain ⟨target, part, hleads, hend⟩ := ih _ _ _ hpart
          exact ⟨target, part, .entry member hleads, hend⟩
      | field found declared stands hpart =>
          obtain ⟨target, part, hleads, hend⟩ := ih _ _ _ hpart
          exact ⟨target, part, .field found declared stands hleads, hend⟩

/-- **A fault points at the data that is refused.**  There is a way through items, entries,
optionals and the fields that the fault is wrapped in, to a part of the data whose conversion
fails with the cause of the fault.  The cause is a fault of that part's own: a mismatch carries
the part itself, and where the way ends at a union, the cause carries the part and the
alternatives in their order, and nothing that an alternative has refused. -/
theorem ofPlain?_located {table : Table} {ty : Descriptor} {plain : Json} {e : ConversionError}
    (h : Value.ofPlain? table ty plain = some (.error e)) :
    e.fields.foldr (fun field source => .inField field.1 field.2 source) e.cause = e ∧
      ∃ target part, table.Leads ty plain e.fields target part ∧
        Value.ofPlain? table target part = some (.error e.cause) ∧
        table.OwnFault target part e.cause ∧
        (∀ expected value, e.cause = .mismatch expected value → value = part) ∧
        (∀ value texts, e.cause = .noAlternative value texts →
          value = part ∧ ∃ alternatives, target = .union alternatives ∧
          texts = alternatives.map Descriptor.text) ∧
        ∀ alternatives, target = .union alternatives →
          e.cause = .noAlternative part (alternatives.map Descriptor.text) := by
  obtain ⟨target, part, hleads, hend, hown⟩ := conversion_located h
  refine ⟨e.foldr_fields_cause, target, part, hleads, hend, hown, fun expected value hcause =>
    ?_, fun value texts hcause => ?_, fun alternatives htarget => ?_⟩
  · rw [hcause] at hown
    exact hown.eq_of_mismatch
  · rw [hcause] at hown
    exact hown.eq_of_noAlternative
  · subst htarget
    exact hown.eq_of_union

/-- The kind of a node inside a node is no boolean.  The fault lies in the kind, behind the
optional, and names the three alternatives of the union; that one of them is a float, which has
refused the boolean, does not show in it. -/
theorem ofPlain?_located_kind :
    Value.ofPlain? Table.nodes (.named "t.Node")
        (.object [("kind", .string "EnumA"), ("next", .object [("kind", .bool true)])]) =
      some (.error (.inField "t.Node" "next" (.inField "t.Node" "kind"
        (.noAlternative (.bool true) ["float", "str", "t.Choice"])))) ∧
    ∃ target part, Table.nodes.Leads (.named "t.Node")
        (.object [("kind", .string "EnumA"), ("next", .object [("kind", .bool true)])])
        [("t.Node", "next"), ("t.Node", "kind")] target part ∧
      part = .bool true ∧ Value.ofPlain? Table.nodes target part =
        some (.error (.noAlternative (.bool true) ["float", "str", "t.Choice"])) := by
  have hfault : Value.ofPlain? Table.nodes (.named "t.Node")
      (.object [("kind", .string "EnumA"), ("next", .object [("kind", .bool true)])]) =
      some (.error (.inField "t.Node" "next" (.inField "t.Node" "kind"
        (.noAlternative (.bool true) ["float", "str", "t.Choice"])))) := rfl
  obtain ⟨-, target, part, hleads, hend, -, -, hunion, -⟩ := ofPlain?_located hfault
  exact ⟨hfault, target, part, hleads, (hunion _ _ rfl).1.symm, hend⟩

end AvroBindings
