import AvroBindings.Proofs.Json.Parts
import AvroBindings.Proofs.Json.WellFormed
import AvroBindings.Schema.Qualify

/-!
# What qualification is

Qualification without a registry: which schemas a schema consists of, what it is with full
names, which definitions it makes, and which schemas are well formed.

## Main Definitions

* `Schema.parts`, `Schema.TypePosition` — the schemas at the type positions of a schema, with
  their scopes.
* `Schema.qualified` — a schema with full names.
* `Schema.definitions` — the named types defined in a schema, nested ones before those that
  contain them.
* `Schema.WellFormed` — a schema in which nothing is missing at a type position.

## Main Statements

* `Schema.induction` — induction on a schema, with the hypothesis on its parts.
* `Schema.wellFormed_iff` — a schema is well formed exactly if its outside and its parts are.
* `Schema.wellFormed_qualified`, `Schema.wellFormed_of_mem_definitions` — trees stay well-formed
  trees.
* `Schema.name_of_mem_definitions` — a definition has its full name as its `name`.

## Design Notes

`Json.wellFormed` is about trees of any use, `Schema.WellFormed` about what stands where in a
schema.
-/

namespace AvroBindings

namespace Schema

/-! ## Kinds -/

section Kinds

variable {kind : String}

theorem isNamedKind_of_isRecordKind (h : isRecordKind kind = true) :
    isNamedKind kind = true := by
  rw [isRecordKind, Bool.or_eq_true, beq_iff_eq, beq_iff_eq] at h
  rcases h with rfl | rfl <;> decide

theorem isRecordKind_eq_false (h : isNamedKind kind = false) : isRecordKind kind = false := by
  rw [Bool.eq_false_iff]
  exact fun hrecord => Bool.eq_false_iff.1 h (isNamedKind_of_isRecordKind hrecord)

theorem partKey?_of_isNamedKind (h : isNamedKind kind = true) : partKey? kind = none := by
  have hmem : ∀ kind ∈ namedKinds, partKey? kind = none := by decide
  exact hmem kind (List.contains_iff_mem.1 h)

end Kinds

/-! ## Type positions -/

/-- The full name that a definition states in a scope; a `name` that is no string counts as
empty. -/
def declaredName (scope : String) (members : List (String × Json)) : String :=
  Name.qualify (((Json.object members).textMember? "namespace").getD scope)
    (((Json.object members).textMember? "name").getD "")

/-- The types of the fields of a record. -/
def fieldTypes (fields : List Json) : List Json := fields.filterMap (Json.member? "type")

/-- **The parts of a schema**: the schemas at the type positions right inside it, with the
scopes they are read in. -/
def parts (scope : String) : Json → List (String × Json)
  | .array items => items.map fun item => (scope, item)
  | .object members =>
    match members.lookup "type" with
    | some (.string kind) =>
      if isRecordKind kind then
        match members.lookup "fields" with
        | some (.array fields) =>
            (fieldTypes fields).map fun ty => (Name.space (declaredName scope members), ty)
        | _ => []
      else
        match (partKey? kind).bind fun key => members.lookup key with
        | some part => [(scope, part)]
        | none => []
    | some (.object inner) => [(scope, .object inner)]
    | some (.array items) => [(scope, .array items)]
    | _ => []
  | _ => []

/-- A part stands inside the schema: in a record inside the array of its fields, in all other
schemas right below. -/
theorem within_of_mem_parts {scope : String} {schema : Json} {part : String × Json}
    (h : part ∈ parts scope schema) :
    Json.Within part.2 schema := by
  cases schema with
  | array items =>
      obtain ⟨item, hitem, rfl⟩ := List.mem_map.1 h
      exact .item hitem
  | object members =>
      rw [parts] at h
      split at h
      · split at h
        · split at h
          next fields hfields =>
            obtain ⟨ty, hty, rfl⟩ := List.mem_map.1 h
            obtain ⟨field, hfield, hmember⟩ := List.mem_filterMap.1 hty
            have hinside : Json.Within field (.object members) :=
              .trans (.item hfield) (.member hfields)
            -- A field that is no object has no type.
            cases field with
            | object fieldMembers => exact .trans (.member hmember) hinside
            | _ => simp [Json.member?] at hmember
          next => simp at h
        · split at h
          next part' hpart =>
            obtain rfl := List.mem_singleton.1 h
            obtain ⟨key, -, hlookup⟩ := Option.bind_eq_some_iff.1 hpart
            exact .member hlookup
          next => simp at h
      next hlookup =>
        obtain rfl := List.mem_singleton.1 h
        exact .member hlookup
      next hlookup =>
        obtain rfl := List.mem_singleton.1 h
        exact .member hlookup
      · simp at h
  | _ => simp [parts] at h

/-- **Induction on a schema**: what holds of a schema in a scope whenever it holds of its parts
holds everywhere. -/
@[elab_as_elim]
theorem induction {motive : String → Json → Prop}
    (step : ∀ scope schema, (∀ part ∈ parts scope schema, motive part.1 part.2) →
      motive scope schema)
    (scope : String) (schema : Json) : motive scope schema :=
  step scope schema fun part _ => induction step part.1 part.2
termination_by schema.depth
decreasing_by exact (within_of_mem_parts ‹_›).depth_lt

/-- A schema stands at a type position of a schema: it is the schema itself, or stands in one of
its parts. -/
inductive TypePosition : String → Json → String → Json → Prop
  | here (scope : String) (schema : Json) : TypePosition scope schema scope schema
  | inside {scope scope' : String} {schema schema' : Json} {part : String × Json}
      (member : part ∈ parts scope schema) (h : TypePosition part.1 part.2 scope' schema') :
      TypePosition scope schema scope' schema'

/-! ## Well-formed schemas -/

/-- **Nothing is missing in an object of a kind.**  A definition has a string as its `name` and
a full name made of Avro names; a record has an array of fields, each an object with a type; a
container has its part. -/
structure Complete (scope kind : String) (members : List (String × Json)) : Prop where
  named : isNamedKind kind = true → ((Json.object members).textMember? "name").isSome = true
  fullName : isNamedKind kind = true → Name.isFull (declaredName scope members) = true
  fields : isRecordKind kind = true → ∃ fields, members.lookup "fields" = some (.array fields) ∧
    ∀ field ∈ fields, ∃ fieldMembers, field = .object fieldMembers ∧
    "type" ∈ Entries.keys fieldMembers
  part : ∀ key, partKey? kind = some key → key ∈ Entries.keys members

/-- **A schema is well formed**: nothing is missing in the objects at its type positions that
state a kind. -/
def WellFormed (scope : String) (schema : Json) : Prop :=
  ∀ scope' members kind, TypePosition scope schema scope' (.object members) →
    members.lookup "type" = some (.string kind) → Complete scope' kind members

/-- A schema is well formed exactly if nothing is missing in it and its parts are well
formed. -/
theorem wellFormed_iff {scope : String} {schema : Json} :
    WellFormed scope schema ↔
      (∀ members kind, schema = .object members → members.lookup "type" = some (.string kind) →
        Complete scope kind members) ∧
      ∀ part ∈ parts scope schema, WellFormed part.1 part.2 := by
  constructor
  · intro h
    refine ⟨?_, fun part hpart scope' members kind hposition =>
      h scope' members kind (.inside hpart hposition)⟩
    rintro members kind rfl hkind
    exact h scope members kind (.here _ _) hkind
  · rintro ⟨hcomplete, hparts⟩ scope' members kind hposition hkind
    cases hposition with
    | here => exact hcomplete members kind rfl hkind
    | inside member h => exact hparts _ member scope' members kind h hkind

/-! ## Full names -/

mutual

/-- A schema with full names, read in a scope. -/
def qualified (scope : String) : Json → Json
  | .string name => .string (qualifyReference scope name)
  | .array items => .array (qualifiedItems scope items)
  | .object members =>
    match members.lookup "type" with
    | some (.string kind) =>
      let fullName := declaredName scope members
      if isRecordKind kind then
        .object (rename fullName (qualifiedFieldsMember (Name.space fullName) members))
      else if isNamedKind kind then .object (rename fullName members)
      else
        match partKey? kind with
        | some key => .object (qualifiedMember key scope members)
        | none => .object members
    | some (.object _) | some (.array _) => .object (qualifiedMember "type" scope members)
    | _ => .object members
  | json => json

/-- The members of a union with full names. -/
def qualifiedItems (scope : String) : List Json → List Json
  | [] => []
  | item :: items => qualified scope item :: qualifiedItems scope items

/-- The members of an object with full names in the schema at one key. -/
def qualifiedMember (key scope : String) : List (String × Json) → List (String × Json)
  | [] => []
  | (k, v) :: members =>
    if k = key then (k, qualified scope v) :: members
      else (k, v) :: qualifiedMember key scope members

/-- The members of a record with full names in the types of its fields. -/
def qualifiedFieldsMember (scope : String) : List (String × Json) → List (String × Json)
  | [] => []
  | (k, .array fields) :: members =>
    if k = "fields" then (k, .array (qualifiedFields scope fields)) :: members
    else (k, .array fields) :: qualifiedFieldsMember scope members
  | member :: members => member :: qualifiedFieldsMember scope members

/-- The fields of a record with full names in their types. -/
def qualifiedFields (scope : String) : List Json → List Json
  | [] => []
  | .object members :: fields =>
      .object (qualifiedMember "type" scope members) :: qualifiedFields scope fields
  | field :: fields => field :: qualifiedFields scope fields

end

/-! ## Definitions -/

/-- The definition that a schema is, if it is one: its full name and the schema with full
names. -/
def ownDefinition (scope : String) : Json → List (String × Json)
  | .object members =>
    match members.lookup "type" with
    | some (.string kind) =>
      if isNamedKind kind then [(declaredName scope members, qualified scope (.object members))]
        else []
    | _ => []
  | _ => []

/-- **The definitions in a schema**, those in its parts before its own. -/
def definitions (scope : String) (schema : Json) : List (String × Json) :=
  ((parts scope schema).attach.flatMap fun part => definitions part.1.1 part.1.2) ++
    ownDefinition scope schema
termination_by schema.depth
decreasing_by exact (within_of_mem_parts part.2).depth_lt

/-- The definitions in several schemas. -/
def definitionsOfAll (parts : List (String × Json)) : List (String × Json) :=
  parts.flatMap fun part => definitions part.1 part.2

theorem definitions_eq (scope : String) (schema : Json) :
    definitions scope schema = definitionsOfAll (parts scope schema) ++
      ownDefinition scope schema := by
  rw [definitions, definitionsOfAll,
    List.flatMap_subtype (g := fun part => definitions part.1 part.2) fun _ _ => rfl,
    List.unattach_attach]

/-! ## Well-formed trees -/

theorem keys_qualifiedMember (key scope : String) (members : List (String × Json)) :
    Entries.keys (qualifiedMember key scope members) = Entries.keys members := by
  induction members with
  | nil => rw [qualifiedMember]
  | cons member rest ih =>
      obtain ⟨k, v⟩ := member
      rw [qualifiedMember]
      split
      · rfl
      · rw [Entries.keys_cons, Entries.keys_cons, ih]

theorem keys_qualifiedFieldsMember (scope : String) (members : List (String × Json)) :
    Entries.keys (qualifiedFieldsMember scope members) = Entries.keys members := by
  induction members with
  | nil => rw [qualifiedFieldsMember]
  | cons member rest ih =>
      obtain ⟨k, v⟩ := member
      cases v with
      | array fields =>
          rw [qualifiedFieldsMember]
          split
          · rfl
          · rw [Entries.keys_cons, Entries.keys_cons, ih]
      | _ =>
          rw [qualifiedFieldsMember]
          · rw [Entries.keys_cons, Entries.keys_cons, ih]
          · simp

theorem wellFormed_rename {fullName : String} {members : List (String × Json)}
    (h : (Json.object members).wellFormed = true) :
    (Json.object (rename fullName members)).wellFormed = true := by
  obtain ⟨hnodup, hmembers⟩ := Json.wellFormed_object_iff.1 h
  refine Json.wellFormed_object_iff.2 ⟨?_, fun member hmember => ?_⟩
  · exact Entries.keys_nodup_swapErase (Entries.keys_nodup_insert hnodup)
  · rcases Entries.mem_of_mem_insert (Entries.mem_of_mem_swapErase hmember) with rfl | hmem
    · rfl
    · exact hmembers member hmem

mutual

/-- A well-formed tree stays one with full names. -/
theorem wellFormed_qualified (scope : String) :
    ∀ schema : Json, schema.wellFormed = true → (qualified scope schema).wellFormed = true
  | .array items, h => by
      rw [qualified, Json.wellFormed_array_iff]
      exact wellFormed_qualifiedItems scope items (Json.wellFormed_array_iff.1 h)
  | .object members, h => by
      obtain ⟨hnodup, hmembers⟩ := Json.wellFormed_object_iff.1 h
      have hmember : ∀ key, (Json.object (qualifiedMember key scope members)).wellFormed =
          true := fun key =>
        Json.wellFormed_object_iff.2 ⟨keys_qualifiedMember key scope members ▸ hnodup,
          wellFormed_qualifiedMember key scope members hmembers⟩
      have hfields : ∀ scope, (Json.object (qualifiedFieldsMember scope members)).wellFormed =
          true := fun scope =>
        Json.wellFormed_object_iff.2 ⟨keys_qualifiedFieldsMember scope members ▸ hnodup,
          wellFormed_qualifiedFieldsMember scope members hmembers⟩
      rw [qualified]
      split
      · dsimp only
        split
        · exact wellFormed_rename (hfields _)
        · split
          · exact wellFormed_rename h
          · split
            · exact hmember _
            · exact h
      · exact hmember _
      · exact hmember _
      · exact h
  | .null, h => h
  | .bool _, h => h
  | .number _, h => h
  | .string _, _ => rfl

theorem wellFormed_qualifiedItems (scope : String) :
    ∀ items : List Json, (∀ x ∈ items, x.wellFormed = true) → ∀ x ∈ qualifiedItems scope items,
      x.wellFormed = true
  | [], _ => by simp [qualifiedItems]
  | item :: items, h => by
      rw [qualifiedItems, List.forall_mem_cons]
      rw [List.forall_mem_cons] at h
      exact ⟨wellFormed_qualified scope item h.1, wellFormed_qualifiedItems scope items h.2⟩

theorem wellFormed_qualifiedMember (key scope : String) :
    ∀ members : List (String × Json), (∀ member ∈ members, member.2.wellFormed = true) →
      ∀ member ∈ qualifiedMember key scope members, member.2.wellFormed = true
  | [], _ => by simp [qualifiedMember]
  | (k, v) :: members, h => by
      rw [List.forall_mem_cons] at h
      rw [qualifiedMember]
      split
      · rw [List.forall_mem_cons]
        exact ⟨wellFormed_qualified scope v h.1, h.2⟩
      · rw [List.forall_mem_cons]
        exact ⟨h.1, wellFormed_qualifiedMember key scope members h.2⟩

theorem wellFormed_qualifiedFieldsMember (scope : String) :
    ∀ members : List (String × Json), (∀ member ∈ members, member.2.wellFormed = true) →
      ∀ member ∈ qualifiedFieldsMember scope members, member.2.wellFormed = true
  | [], _ => by simp [qualifiedFieldsMember]
  | (k, v) :: members, h => by
      rw [List.forall_mem_cons] at h
      have hrest := wellFormed_qualifiedFieldsMember scope members h.2
      cases v with
      | array fields =>
          have hfields :=
            wellFormed_qualifiedFields scope fields (Json.wellFormed_array_iff.1 h.1)
          rw [qualifiedFieldsMember]
          split
          · rw [List.forall_mem_cons]
            exact ⟨Json.wellFormed_array_iff.2 hfields, h.2⟩
          · rw [List.forall_mem_cons]
            exact ⟨h.1, hrest⟩
      | _ =>
          rw [qualifiedFieldsMember]
          · rw [List.forall_mem_cons]
            exact ⟨h.1, hrest⟩
          · simp

theorem wellFormed_qualifiedFields (scope : String) :
    ∀ fields : List Json, (∀ x ∈ fields, x.wellFormed = true) →
      ∀ x ∈ qualifiedFields scope fields, x.wellFormed = true
  | [], _ => by simp [qualifiedFields]
  | field :: fields, h => by
      rw [List.forall_mem_cons] at h
      have hrest := wellFormed_qualifiedFields scope fields h.2
      cases field with
      | object members =>
          obtain ⟨hnodup, hmembers⟩ := Json.wellFormed_object_iff.1 h.1
          rw [qualifiedFields, List.forall_mem_cons]
          refine ⟨Json.wellFormed_object_iff.2 ⟨keys_qualifiedMember "type" scope members ▸
            hnodup, ?_⟩, hrest⟩
          exact wellFormed_qualifiedMember "type" scope members hmembers
      | _ =>
          rw [qualifiedFields]
          · rw [List.forall_mem_cons]
            exact ⟨h.1, hrest⟩
          · simp

end

/-- A definition is that of a schema at a type position, with the full name that the schema
states. -/
theorem exists_of_mem_definitions {scope : String} {schema : Json}
    (h : schema.wellFormed = true) {definition : String × Json}
    (hmem : definition ∈ definitions scope schema) :
    ∃ scope' members, TypePosition scope schema scope' (.object members) ∧
      (Json.object members).wellFormed = true ∧
      definition ∈ ownDefinition scope' (.object members) := by
  induction scope, schema using Schema.induction with
  | step scope schema ih =>
      rw [definitions_eq, List.mem_append, definitionsOfAll, List.mem_flatMap] at hmem
      rcases hmem with ⟨part, hpart, hmem⟩ | hmem
      · have hpartWell : part.2.wellFormed = true :=
          Json.wellFormed_of_within h (within_of_mem_parts hpart)
        obtain ⟨scope', members, hposition, hwell, hown⟩ := ih part hpart hpartWell hmem
        exact ⟨scope', members, .inside hpart hposition, hwell, hown⟩
      · cases schema with
        | object members => exact ⟨scope, members, .here _ _, h, hmem⟩
        | _ => simp [ownDefinition] at hmem

theorem wellFormed_of_mem_definitions {scope : String} {schema : Json}
    (h : schema.wellFormed = true) {definition : String × Json}
    (hmem : definition ∈ definitions scope schema) : definition.2.wellFormed = true := by
  obtain ⟨scope', members, -, hwell, hown⟩ := exists_of_mem_definitions h hmem
  rw [ownDefinition] at hown
  split at hown
  · split at hown
    · obtain rfl := List.mem_singleton.1 hown
      exact wellFormed_qualified scope' _ hwell
    · simp at hown
  · simp at hown

/-- The name that a renamed definition has. -/
theorem textMember?_name_rename {fullName : String} {members : List (String × Json)}
    (hnodup : (Entries.keys members).Nodup) :
    (Json.object (rename fullName members)).textMember? "name" = some fullName := by
  have hmem : ("name", Json.string fullName) ∈ rename fullName members :=
    Entries.mem_swapErase_of_ne (show "name" ≠ "namespace" by decide)
      (Entries.mem_insert_self _ _ _)
  have hlookup : (rename fullName members).lookup "name" = some (.string fullName) :=
    (Entries.lookup_eq_some_iff_mem
      (Entries.keys_nodup_swapErase (Entries.keys_nodup_insert hnodup))).2 hmem
  rw [Json.textMember?, Json.member?, hlookup]
  rfl

/-- **A definition has its full name as its name.** -/
theorem name_of_mem_definitions {scope : String} {schema : Json} (h : schema.wellFormed = true)
    {definition : String × Json} (hmem : definition ∈ definitions scope schema) :
    definition.2.textMember? "name" = some definition.1 := by
  obtain ⟨scope', members, -, hwell, hown⟩ := exists_of_mem_definitions h hmem
  have hnodup := (Json.wellFormed_object_iff.1 hwell).1
  rw [ownDefinition] at hown
  split at hown
  next kind hkind =>
    split at hown
    next hnamed =>
      obtain rfl := List.mem_singleton.1 hown
      show (qualified scope' (.object members)).textMember? "name" =
        some (declaredName scope' members)
      rw [qualified, hkind]
      dsimp only
      split
      · refine textMember?_name_rename ?_
        rw [keys_qualifiedFieldsMember]
        exact hnodup
      · exact textMember?_name_rename hnodup
    next => simp at hown
  next => simp at hown

end Schema

end AvroBindings
