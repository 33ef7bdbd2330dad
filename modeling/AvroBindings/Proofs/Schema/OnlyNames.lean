import AvroBindings.Proofs.Schema.Members
import AvroBindings.Proofs.Schema.Qualify

/-!
# Nothing but names

What qualification changes in a schema, and what it leaves alone: texts at type positions and
the names of definitions become full names, the namespaces of definitions go, and everything
else stays as it is.

## Main Definitions

* `Schema.SameBut` — two objects are the same but for the value of one key.
* `Schema.Renamed` — a definition with its full name in place of its name and its namespace.
* `Schema.DiffersInNames` — two schemas have one shape and differ in names only.

## Main Statements

* `Schema.differsInNames_qualified` — a schema with full names differs from the schema in names
  only.
* `Schema.qualifyIn_differsInNames` — so does whatever qualification gives.

## Design Notes

**What looks like a name.**  A default, a property or a documentation may hold texts and objects
that look like names and definitions.  They stand under keys that are no type positions in the
object that they stand in, and of the values under such keys `DiffersInNames` says that they are
the same.
-/

namespace AvroBindings

namespace Schema

/-! ## Schemas that differ in names -/

/-- **Two objects are the same but for the value of one key**: they have the same keys in the
same order, and the same values under all others. -/
structure SameBut (key : String) (members members' : List (String × Json)) : Prop where
  keys : Entries.keys members' = Entries.keys members
  others : ∀ other, other ≠ key → members'.lookup other = members.lookup other

/-- **A definition with its full name**: in place of its name, and without a namespace.  Its
other members, save the fields, are the same. -/
structure Renamed (scope : String) (members members' : List (String × Json)) : Prop where
  keys : Entries.keys members' = Entries.keys (Entries.swapErase "namespace" members)
  name : members'.lookup "name" = some (.string (declaredName scope members))
  «namespace» : members'.lookup "namespace" = none
  others : ∀ key, key ≠ "name" → key ≠ "namespace" → key ≠ "fields" →
    members'.lookup key = members.lookup key

/-- **A schema differs from another, read in a scope, in names only**: in the texts at its type
positions and in the names and namespaces of its definitions. -/
inductive DiffersInNames : String → Json → Json → Prop
  | reference (scope name : String) :
      DiffersInNames scope (.string name) (.string (qualifyReference scope name))
  | union {scope : String} {items items' : List Json} (length : items'.length = items.length)
      (inside : ∀ x y, (x, y) ∈ items.zip items' → DiffersInNames scope x y) :
      DiffersInNames scope (.array items) (.array items')
  | inner {scope key : String} {members members' : List (String × Json)} {x y : Json}
      (only : innerKey? members = some key) (same : SameBut key members members')
      (found : members.lookup key = some x) (found' : members'.lookup key = some y)
      (inside : DiffersInNames scope x y) :
      DiffersInNames scope (.object members) (.object members')
  | named {scope kind : String} {members members' : List (String × Json)}
      (stated : members.lookup "type" = some (.string kind)) (named : isNamedKind kind = true)
      (noRecord : isRecordKind kind = false) (renamed : Renamed scope members members')
      (fields : members'.lookup "fields" = members.lookup "fields") :
      DiffersInNames scope (.object members) (.object members')
  | record {scope kind : String} {members members' : List (String × Json)}
      {fields fields' : List Json} (stated : members.lookup "type" = some (.string kind))
      (record : isRecordKind kind = true) (renamed : Renamed scope members members')
      (found : members.lookup "fields" = some (.array fields))
      (found' : members'.lookup "fields" = some (.array fields'))
      (length : fields'.length = fields.length)
      (same : ∀ x y, (x, y) ∈ fields.zip fields' → ∃ ms ms', x = .object ms ∧ y = .object ms' ∧
        SameBut "type" ms ms')
      (types : ∀ x y, (x, y) ∈ fields.zip fields' → ∀ ty ty', x.member? "type" = some ty →
        y.member? "type" = some ty' →
        DiffersInNames (Name.space (declaredName scope members)) ty ty') :
      DiffersInNames scope (.object members) (.object members')
  | untouched {scope : String} {schema : Json} (text : ∀ name, schema ≠ .string name)
      (items : ∀ items, schema ≠ .array items)
      (members : ∀ members, schema = .object members → innerKey? members = none ∧
        ¬IsDefinition schema) :
      DiffersInNames scope schema schema

/-! ## Full names -/

section Qualified

variable {scope kind key : String} {members : List (String × Json)}

theorem sameBut_qualifiedMember (key scope : String) (members : List (String × Json)) :
    SameBut key members (qualifiedMember key scope members) :=
  ⟨keys_qualifiedMember key scope members, fun _ => lookup_qualifiedMember_of_ne⟩

theorem keys_rename {fullName : String} (hname : "name" ∈ Entries.keys members) :
    Entries.keys (rename fullName members) =
      Entries.keys (Entries.swapErase "namespace" members) := by
  refine Entries.keys_swapErase_congr _ ?_
  rw [Entries.keys_insert, if_pos hname]

/-- With full names a definition has the keys that it had, but for its namespace. -/
theorem keys_qualified (scope : String) {members' : List (String × Json)}
    (hkind : members.lookup "type" = some (.string kind)) (hnamed : isNamedKind kind = true)
    (hname : "name" ∈ Entries.keys members)
    (hqualified : qualified scope (.object members) = .object members') :
    Entries.keys members' = Entries.keys (Entries.swapErase "namespace" members) := by
  cases hrecord : isRecordKind kind with
  | true =>
      have hkeys := keys_qualifiedFieldsMember (Name.space (declaredName scope members)) members
      rw [qualified_record hkind hrecord] at hqualified
      rw [← Json.object.inj hqualified, keys_rename (hkeys ▸ hname)]
      exact Entries.keys_swapErase_congr _ hkeys
  | false =>
      rw [qualified_named hkind hnamed hrecord] at hqualified
      rw [← Json.object.inj hqualified, keys_rename hname]

/-- A definition in which nothing is missing gets its full name. -/
theorem renamed_qualified {members' : List (String × Json)}
    (hnodup : (Entries.keys members).Nodup)
    (hkind : members.lookup "type" = some (.string kind)) (hnamed : isNamedKind kind = true)
    (hcomplete : Complete scope kind members)
    (hqualified : qualified scope (.object members) = .object members') :
    Renamed scope members members' := by
  obtain ⟨name, hname⟩ := Option.isSome_iff_exists.1 (hcomplete.named hnamed)
  have hkey := Entries.mem_keys_of_lookup (Json.textMember?_eq_some_iff.1 hname)
  have htext := textMember?_name_qualified scope hnodup hkind hnamed
  have hspace := member?_namespace_qualified scope hnodup hkind hnamed
  have hmember : ∀ key, key ≠ "name" → key ≠ "namespace" → key ≠ "fields" →
      (qualified scope (.object members)).member? key = members.lookup key :=
    fun key hne hne' hfields => member?_qualified scope hnodup hkind hnamed hne hne' fun _ =>
      hfields
  rw [hqualified] at htext hspace hmember
  exact ⟨keys_qualified scope hkind hnamed hkey hqualified,
    Json.textMember?_eq_some_iff.1 htext, hspace, hmember⟩

theorem differsInNames_named (hnodup : (Entries.keys members).Nodup)
    (hkind : members.lookup "type" = some (.string kind)) (hnamed : isNamedKind kind = true)
    (hrecord : isRecordKind kind = false) (hcomplete : Complete scope kind members) :
    DiffersInNames scope (.object members) (qualified scope (.object members)) := by
  have hfields := member?_qualified scope hnodup hkind hnamed (show "fields" ≠ "name" by decide)
    (by decide) (by simp [hrecord])
  obtain ⟨members', hqualified⟩ := exists_qualified_eq_object scope members
  have hrenamed := renamed_qualified hnodup hkind hnamed hcomplete hqualified
  rw [hqualified] at hfields ⊢
  exact .named hkind hnamed hrecord hrenamed hfields

/-- A record differs in names only if the types of its fields do. -/
theorem differsInNames_record (hnodup : (Entries.keys members).Nodup)
    (hkind : members.lookup "type" = some (.string kind)) (hrecord : isRecordKind kind = true)
    (hcomplete : Complete scope kind members)
    (hparts : ∀ part ∈ parts scope (.object members),
      DiffersInNames part.1 part.2 (qualified part.1 part.2)) :
    DiffersInNames scope (.object members) (qualified scope (.object members)) := by
  obtain ⟨fields, hfields, hobjects⟩ := hcomplete.fields hrecord
  have hfields' := member?_fields_qualified scope hnodup hkind hrecord hfields
  have htypes : ∀ ty ∈ fieldTypes fields,
      DiffersInNames (Name.space (declaredName scope members)) ty
      (qualified (Name.space (declaredName scope members)) ty) :=
    fun ty hty => hparts (Name.space (declaredName scope members), ty)
      (mem_parts_of_mem_fieldTypes hkind hrecord hfields hty)
  obtain ⟨members', hqualified⟩ := exists_qualified_eq_object scope members
  have hrenamed :=
    renamed_qualified hnodup hkind (isNamedKind_of_isRecordKind hrecord) hcomplete hqualified
  rw [hqualified, qualifiedFields_eq_map] at hfields'
  rw [hqualified]
  refine .record hkind hrecord hrenamed hfields hfields' (List.length_map _) ?_ ?_
  · intro x y hpair
    obtain ⟨hx, rfl⟩ := mem_zip_map hpair
    obtain ⟨ms, rfl, -⟩ := hobjects x hx
    exact ⟨ms, _, rfl, rfl, sameBut_qualifiedMember "type" _ ms⟩
  · intro x y hpair ty ty' hty hty'
    obtain ⟨hx, rfl⟩ := mem_zip_map hpair
    obtain ⟨ms, rfl, -⟩ := hobjects x hx
    have hfield :=
      lookup_qualifiedMember_self "type" (Name.space (declaredName scope members)) ms
    rw [Json.member?] at hty
    rw [qualifiedField, Json.member?, hfield, hty, Option.map_some] at hty'
    obtain rfl := Option.some.inj hty'
    exact htypes ty (List.mem_filterMap.2 ⟨_, hx, hty⟩)

/-- An object with an inner key in which nothing is missing has its part. -/
theorem exists_part_of_innerKey? (h : WellFormed scope (.object members))
    (hkey : innerKey? members = some key) :
    ∃ part, members.lookup key = some part := by
  rcases innerKey?_eq_some_iff.1 hkey with ⟨kind, hkind, hpart⟩ | ⟨inner, hinner, -, rfl⟩
  · exact Entries.exists_lookup (((wellFormed_kind_iff hkind).1 h).1.part key hpart)
  · exact ⟨inner, hinner⟩

/-- **A schema with full names differs from the schema in names only.** -/
theorem differsInNames_qualified {schema : Json} (hschema : schema.wellFormed = true)
    (h : WellFormed scope schema) :
    DiffersInNames scope schema (qualified scope schema) := by
  induction scope, schema using Schema.induction with
  | step scope schema ih =>
      have hpart : ∀ part ∈ parts scope schema,
          DiffersInNames part.1 part.2 (qualified part.1 part.2) :=
        fun part hmem =>
          ih part hmem (Json.wellFormed_of_within hschema (within_of_mem_parts hmem))
          ((wellFormed_iff.1 h).2 part hmem)
      cases schema with
      | string name =>
          rw [qualified]
          exact .reference scope name
      | array items =>
          rw [qualified, qualifiedItems_eq_map]
          refine .union (List.length_map _) fun x y hpair => ?_
          obtain ⟨hx, rfl⟩ := mem_zip_map hpair
          exact hpart (scope, x) (List.mem_map_of_mem hx)
      | object members =>
          have hnodup := (Json.wellFormed_object_iff.1 hschema).1
          cases hkey : innerKey? members with
          | some key =>
              obtain ⟨part, hfound⟩ := exists_part_of_innerKey? h hkey
              have hfound' := lookup_qualifiedMember_self key scope members
              rw [hfound, Option.map_some] at hfound'
              rw [qualified_of_innerKey? hkey]
              refine .inner hkey (sameBut_qualifiedMember key scope members) hfound hfound' ?_
              exact hpart (scope, part) (by simp [parts_of_innerKey? hkey hfound])
          | none =>
              by_cases hdefinition : IsDefinition (.object members)
              · obtain ⟨kind, hkind, hnamed⟩ := isDefinition_object_iff.1 hdefinition
                have hcomplete := ((wellFormed_kind_iff hkind).1 h).1
                cases hrecord : isRecordKind kind with
                | true => exact differsInNames_record hnodup hkind hrecord hcomplete hpart
                | false => exact differsInNames_named hnodup hkind hnamed hrecord hcomplete
              · rw [qualified_of_innerKey?_eq_none hkey hdefinition]
                refine .untouched (by simp) (by simp) ?_
                rintro _ ⟨⟩
                exact ⟨hkey, hdefinition⟩
      | _ =>
          rw [qualified]
          · exact .untouched (by simp) (by simp) (by simp)
          · simp
          · simp
          · simp

end Qualified

/-! ## Qualification -/

/-- **Qualification touches nothing but names.**  Whatever it gives has the shape of the schema
and differs from it in names only: members that hold no types, and what may look like a name in
them, are as they were. -/
theorem qualifyIn_differsInNames {registry registry' : Registry} {scope : String}
    {schema q : Json} (hschema : schema.wellFormed = true)
    (h : qualifyIn registry scope schema = (.ok q, registry')) :
    DiffersInNames scope schema q := by
  obtain ⟨hwell, -, rfl⟩ := (qualifies scope schema registry q registry').1 h
  exact differsInNames_qualified hschema hwell

/-- A record with much that looks like names and definitions: its documentation, a property that
is called like the part of an array, and the default of a field. -/
def lookalike : Json :=
  .object [("type", .string "record"), ("name", .string "Outer"), ("namespace", .string "a"),
    ("doc", .string "Outer"), ("items", .array [.string "Outer"]),
    ("fields", .array
      [.object [("name", .string "next"), ("type", .array [.string "null", .string "Outer"]),
      ("default", .object [("type", .string "enum"), ("name", .string "Kind"),
        ("namespace", .string "b")])]])]

/-- The names of the record get full, and nothing else changes. -/
theorem qualifyIn_differsInNames_lookalike :
    ∃ q registry, qualifyIn [] "" lookalike = (.ok q, registry) ∧
      q.textMember? "name" = some "a.Outer" ∧ DiffersInNames "" lookalike q := by
  have hrun : ∃ q registry, qualifyIn [] "" lookalike = (.ok q, registry) ∧
      q.textMember? "name" = some "a.Outer" :=
    ⟨_, _, rfl, rfl⟩
  obtain ⟨q, registry, hqualify, hname⟩ := hrun
  exact ⟨q, registry, hqualify, hname, qualifyIn_differsInNames (by decide) hqualify⟩

end Schema

end AvroBindings
