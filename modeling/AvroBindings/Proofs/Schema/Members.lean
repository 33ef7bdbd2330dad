import AvroBindings.Proofs.Name
import AvroBindings.Proofs.Schema.Nested

/-!
# Members of schemas

Which member of a schema holds its parts, in which scope they are read, and what the members of
a schema with full names are.

## Main Definitions

* `Schema.innerKey?` — the member that holds the only part of a container, or of an object
  around a schema.
* `Schema.innerScope` — the scope in which the parts of a schema are read.

## Main Statements

* `Schema.field_or_inner_of_mem_parts` — where in an object a part stands.
* `Schema.textMember?_name_qualified`, `Schema.member?_namespace_qualified`,
  `Schema.member?_fields_qualified`, `Schema.member?_qualified` — the members of a definition
  with full names.
* `Schema.member?_qualified_congr` — what two definitions of one full name have in common.
-/

namespace AvroBindings.Schema

/-! ## References -/

/-- A full name is its own full name. -/
theorem qualifyReference_qualifyReference (scope name : String) :
    qualifyReference scope (qualifyReference scope name) = qualifyReference scope name := by
  unfold qualifyReference
  by_cases hprimitive : primitiveNames.contains name = true
  · rw [if_pos hprimitive, if_pos hprimitive]
  · rw [if_neg hprimitive, Name.qualify_qualify, ite_self]

/-! ## Objects with one part -/

section Parts

variable {scope key : String} {members : List (String × Json)} {x y : Json}

/-- The key of the only part of an object that is no record: of a container, or of an object
around a schema. -/
def innerKey? (members : List (String × Json)) : Option String :=
  match members.lookup "type" with
  | some (.string kind) => partKey? kind
  | some (.object _) | some (.array _) => some "type"
  | _ => none

/-- Where the value of a key gets full names, another value of the key does instead of it. -/
theorem lookup_qualifiedMember_insert (key other scope : String) (y : Json)
    (members : List (String × Json)) :
    (qualifiedMember key scope (Entries.insert key y members)).lookup other =
      if other = key then some (qualified scope y)
        else (qualifiedMember key scope members).lookup other := by
  split
  next h =>
    rw [h, lookup_qualifiedMember_self, Entries.lookup_insert, if_pos rfl, Option.map_some]
  next h => rw [lookup_qualifiedMember_of_ne h, lookup_qualifiedMember_of_ne h,
    Entries.lookup_insert, if_neg h]

theorem isNamedKind_of_partKey? {kind : String} (h : partKey? kind = some key) :
    isNamedKind kind = false := by
  rw [Bool.eq_false_iff]
  intro hnamed
  rw [partKey?_of_isNamedKind hnamed] at h
  contradiction

/-- An object has an inner key if it is a container, or if its type is an object or an array. -/
theorem innerKey?_eq_some_iff :
    innerKey? members = some key ↔
      (∃ kind, members.lookup "type" = some (.string kind) ∧ partKey? kind = some key) ∨
        ∃ inner, members.lookup "type" = some inner ∧
          ((∃ inside, inner = .object inside) ∨ ∃ items, inner = .array items) ∧
          key = "type" := by
  unfold innerKey?
  split
  next kind hkind => simp [hkind]
  next inside hinner => simp [hinner, eq_comm]
  next items hinner => simp [hinner, eq_comm]
  next hkind hobject harray =>
    refine iff_of_false (by simp) ?_
    rintro (⟨kind, h, -⟩ | ⟨_, h, ⟨inside, rfl⟩ | ⟨items, rfl⟩, -⟩)
    · exact hkind kind h
    · exact hobject inside h
    · exact harray items h

/-- The only part of an object stays its only part where something is put in its place, if an
object or an array stays one. -/
theorem innerKey?_insert (hkey : innerKey? members = some key)
    (hfound : members.lookup key = some x)
    (hcompound : ((∃ inside, x = .object inside) ∨ ∃ items, x = .array items) →
      (∃ inside, y = .object inside) ∨ ∃ items, y = .array items) :
    innerKey? (Entries.insert key y members) = some key := by
  rw [innerKey?_eq_some_iff] at hkey ⊢
  rcases hkey with ⟨kind, hkind, hpart⟩ | ⟨inner, hinner, hstated, rfl⟩
  · exact .inl ⟨kind, by rw [Entries.lookup_insert, if_neg (partKey?_ne_type hpart), hkind],
      hpart⟩
  · obtain rfl := Option.some.inj (hinner.symm.trans hfound)
    exact .inr ⟨y, Entries.lookup_insert_self "type" y members, hcompound hstated, rfl⟩

theorem innerKey?_ne_name (hkey : innerKey? members = some key) : "name" ≠ key := by
  rcases innerKey?_eq_some_iff.1 hkey with ⟨kind, -, hpart⟩ | ⟨_, -, -, rfl⟩
  · unfold partKey? at hpart
    rintro rfl
    split at hpart
    · contradiction
    · split at hpart <;> contradiction
  · decide

theorem parts_of_innerKey? (hkey : innerKey? members = some key)
    (hfound : members.lookup key = some x) :
    parts scope (.object members) = [(scope, x)] := by
  rcases innerKey?_eq_some_iff.1 hkey with
    ⟨kind, hkind, hpart⟩ | ⟨inner, hinner, hcompound, rfl⟩
  · simp [parts, hkind, isRecordKind_eq_false (isNamedKind_of_partKey? hpart), hpart, hfound]
  · obtain rfl := Option.some.inj (hinner.symm.trans hfound)
    rcases hcompound with ⟨inside, rfl⟩ | ⟨items, rfl⟩ <;> simp [parts, hinner]

theorem ownDefinition_of_innerKey? (hkey : innerKey? members = some key) :
    ownDefinition scope (.object members) = [] := by
  rcases innerKey?_eq_some_iff.1 hkey with
    ⟨kind, hkind, hpart⟩ | ⟨inner, hinner, hcompound, rfl⟩
  · simp [ownDefinition, hkind, isNamedKind_of_partKey? hpart]
  · rcases hcompound with ⟨inside, rfl⟩ | ⟨items, rfl⟩ <;> simp [ownDefinition, hinner]

theorem qualified_of_innerKey? (hkey : innerKey? members = some key) :
    qualified scope (.object members) = .object (qualifiedMember key scope members) := by
  rcases innerKey?_eq_some_iff.1 hkey with
    ⟨kind, hkind, hpart⟩ | ⟨inner, hinner, hcompound, rfl⟩
  · exact qualified_container hkind (isNamedKind_of_partKey? hpart) hpart
  · exact qualified_wrapper hinner hcompound

theorem isDefinition_object_iff :
    IsDefinition (.object members) ↔ ∃ kind, members.lookup "type" = some (.string kind) ∧
    isNamedKind kind = true := by
  simp only [IsDefinition, Json.textMember?_eq_some_iff, Json.member?]

/-- An object with an inner key is no definition. -/
theorem not_isDefinition_of_innerKey? (hkey : innerKey? members = some key) :
    ¬IsDefinition (.object members) := by
  rw [isDefinition_object_iff]
  rintro ⟨kind, hkind, hnamed⟩
  rcases innerKey?_eq_some_iff.1 hkey with
    ⟨kind', hkind', hpart⟩ | ⟨inner, hinner, hcompound, -⟩
  · obtain rfl : kind' = kind := by simpa [hkind] using hkind'.symm
    simp [isNamedKind_of_partKey? hpart] at hnamed
  · rcases hcompound with ⟨inside, rfl⟩ | ⟨items, rfl⟩ <;> simp [hkind] at hinner

theorem ownDefinition_eq_nil {schema : Json} (h : ¬IsDefinition schema) :
    ownDefinition scope schema = [] := by
  unfold ownDefinition
  split
  next members =>
    split
    next kind hkind =>
      rw [if_neg]
      exact fun hnamed => h (isDefinition_object_iff.2 ⟨kind, hkind, hnamed⟩)
    next => rfl
  next => rfl

/-- An object that is neither a definition nor has an inner key is taken as it is. -/
theorem qualified_of_innerKey?_eq_none (hkey : innerKey? members = none)
    (hdefinition : ¬IsDefinition (.object members)) :
    qualified scope (.object members) = .object members := by
  unfold innerKey? at hkey
  split at hkey
  next kind hkind =>
    have hnamed : isNamedKind kind = false := by
      rw [Bool.eq_false_iff]
      exact fun hnamed => hdefinition (isDefinition_object_iff.2 ⟨kind, hkind, hnamed⟩)
    exact qualified_unknown hkind hnamed hkey
  next => contradiction
  next => contradiction
  next hkind hobject harray =>
    rw [qualified]
    split <;> simp_all

end Parts

/-! ## Records -/

/-- What states a kind that carries a name is a definition. -/
theorem ownDefinition_of_kind {kind : String} {members : List (String × Json)} (scope : String)
    (hkind : members.lookup "type" = some (.string kind)) (hnamed : isNamedKind kind = true) :
    ownDefinition scope (.object members) =
      [(declaredName scope members, qualified scope (.object members))] := by
  rw [ownDefinition, hkind]
  exact if_pos hnamed

/-- The parts of a record are the types of its fields. -/
theorem parts_of_fields {scope kind : String} {members fieldMembers : List (String × Json)}
    {before after : List Json} {x : Json} (hkind : members.lookup "type" = some (.string kind))
    (hrecord : isRecordKind kind = true)
    (hfields : members.lookup "fields" =
      some (.array (before ++ .object fieldMembers :: after)))
    (hfound : fieldMembers.lookup "type" = some x) :
    parts scope (.object members) =
      (fieldTypes before).map (Prod.mk (Name.space (declaredName scope members))) ++
        (Name.space (declaredName scope members), x) ::
          (fieldTypes after).map (Prod.mk (Name.space (declaredName scope members))) := by
  have htypes : fieldTypes (before ++ .object fieldMembers :: after) = fieldTypes before ++ x ::
      fieldTypes after := by
    simp [fieldTypes, Json.member?, hfound]
  simp only [parts, hkind, hrecord, hfields, htypes, if_true, List.map_append, List.map_cons]

theorem wellFormed_of_mem_fieldTypes {fields : List Json}
    (hfields : ∀ field ∈ fields, field.wellFormed = true) {ty : Json}
    (hty : ty ∈ fieldTypes fields) : ty.wellFormed = true := by
  obtain ⟨field, hfield, hmember⟩ := List.mem_filterMap.1 hty
  exact Json.wellFormed_of_member? (hfields field hfield) hmember

/-- The types of the fields of a record are parts of it. -/
theorem mem_parts_of_mem_fieldTypes {scope kind : String} {members : List (String × Json)}
    {fields : List Json} {ty : Json} (hkind : members.lookup "type" = some (.string kind))
    (hrecord : isRecordKind kind = true)
    (hfields : members.lookup "fields" = some (.array fields)) (hty : ty ∈ fieldTypes fields) :
    (Name.space (declaredName scope members), ty) ∈ parts scope (.object members) := by
  simp only [parts, hkind, hrecord, hfields, if_true]
  exact List.mem_map_of_mem hty

/-- A part of an object is the type of a field of a record, or the only part of what is no
record. -/
theorem field_or_inner_of_mem_parts {scope : String} {members : List (String × Json)}
    {part : String × Json} (h : part ∈ parts scope (.object members)) :
    (∃ kind before fieldMembers after, members.lookup "type" = some (.string kind) ∧
      isRecordKind kind = true ∧
        members.lookup "fields" = some (.array (before ++ .object fieldMembers :: after)) ∧
        fieldMembers.lookup "type" = some part.2 ∧
        part.1 = Name.space (declaredName scope members)) ∨
      ∃ key, innerKey? members = some key ∧ members.lookup key = some part.2 ∧
      part.1 = scope := by
  rw [parts] at h
  split at h
  next kind hkind =>
    split at h
    next hrecord =>
      split at h
      next fields hfields =>
        obtain ⟨ty, hty, rfl⟩ := List.mem_map.1 h
        obtain ⟨field, hfield, hmember⟩ := List.mem_filterMap.1 hty
        obtain ⟨before, after, rfl⟩ := List.append_of_mem hfield
        cases field with
        | object fieldMembers =>
            exact .inl ⟨kind, before, fieldMembers, after, hkind, hrecord, hfields,
              hmember, rfl⟩
        | _ => simp [Json.member?] at hmember
      next => simp at h
    next =>
      split at h
      next part' hpart =>
        obtain rfl := List.mem_singleton.1 h
        obtain ⟨key, hkey, hlookup⟩ := Option.bind_eq_some_iff.1 hpart
        exact .inr ⟨key, innerKey?_eq_some_iff.2 (.inl ⟨kind, hkind, hkey⟩), hlookup, rfl⟩
      next => simp at h
  next inside hinner =>
    obtain rfl := List.mem_singleton.1 h
    exact .inr ⟨"type", innerKey?_eq_some_iff.2 (.inr ⟨_, hinner, .inl ⟨_, rfl⟩, rfl⟩),
      hinner, rfl⟩
  next items hinner =>
    obtain rfl := List.mem_singleton.1 h
    exact .inr ⟨"type", innerKey?_eq_some_iff.2 (.inr ⟨_, hinner, .inr ⟨_, rfl⟩, rfl⟩),
      hinner, rfl⟩
  next => simp at h

/-! ## Scopes -/

/-- The scope in which the parts of a schema are read: those of a record in the namespace of its
full name. -/
def innerScope (scope : String) : Json → String
  | .object members =>
    if ((Json.object members).textMember? "type").any isRecordKind then
      Name.space (declaredName scope members)
    else scope
  | _ => scope

theorem fst_of_mem_parts {scope : String} {schema : Json} {part : String × Json}
    (h : part ∈ parts scope schema) :
    part.1 = innerScope scope schema := by
  cases schema with
  | array items =>
      obtain ⟨item, -, rfl⟩ := List.mem_map.1 h
      rfl
  | object members =>
      rw [innerScope]
      rcases field_or_inner_of_mem_parts h with
        ⟨kind, -, -, -, hkind, hrecord, -, -, hscope⟩ | ⟨key, hkey, -, hscope⟩
      · have htext : (Json.object members).textMember? "type" = some kind :=
          Json.textMember?_eq_some_iff.2 hkind
        rw [htext, Option.any_some, hrecord, if_pos rfl, hscope]
      · rw [if_neg, hscope]
        intro hany
        obtain ⟨kind, htext, hrecord⟩ := (Option.any_eq_true _ _).1 hany
        exact not_isDefinition_of_innerKey? hkey
          ⟨kind, htext, isNamedKind_of_isRecordKind hrecord⟩
  | _ => simp [parts] at h

/-- All parts of a schema are read in one scope. -/
theorem parts_eq_map (scope : String) (schema : Json) :
    parts scope schema = ((parts scope schema).map Prod.snd).map
      (Prod.mk (innerScope scope schema)) := by
  rw [List.map_map]
  refine (List.map_id'' (fun _ => rfl) _).symm.trans (List.map_congr_left fun part hpart => ?_)
  exact Prod.ext (fst_of_mem_parts hpart) rfl

/-! ## Definitions with full names -/

section Definitions

variable {scope kind : String} {members : List (String × Json)}

/-- With full names a definition has its full name as its name. -/
theorem textMember?_name_qualified (scope : String) (hnodup : (Entries.keys members).Nodup)
    (hkind : members.lookup "type" = some (.string kind)) (hnamed : isNamedKind kind = true) :
    (qualified scope (.object members)).textMember? "name" =
      some (declaredName scope members) := by
  cases hrecord : isRecordKind kind with
  | true =>
      rw [qualified_record hkind hrecord]
      exact textMember?_name_rename (keys_qualifiedFieldsMember _ members ▸ hnodup)
  | false =>
      rw [qualified_named hkind hnamed hrecord]
      exact textMember?_name_rename hnodup

/-- With full names a definition states no namespace. -/
theorem member?_namespace_qualified (scope : String) (hnodup : (Entries.keys members).Nodup)
    (hkind : members.lookup "type" = some (.string kind)) (hnamed : isNamedKind kind = true) :
    (qualified scope (.object members)).member? "namespace" = none := by
  cases hrecord : isRecordKind kind with
  | true =>
      rw [qualified_record hkind hrecord]
      exact lookup_namespace_rename _ (keys_qualifiedFieldsMember _ members ▸ hnodup)
  | false =>
      rw [qualified_named hkind hnamed hrecord]
      exact lookup_namespace_rename _ hnodup

/-- A field with full names in its type. -/
def qualifiedField (scope : String) : Json → Json
  | .object members => .object (qualifiedMember "type" scope members)
  | field => field

theorem qualifiedFields_eq_map (scope : String) (fields : List Json) :
    qualifiedFields scope fields = fields.map (qualifiedField scope) := by
  induction fields with
  | nil => rw [qualifiedFields]; rfl
  | cons field rest ih =>
      cases field with
      | object members => rw [qualifiedFields, ih, List.map_cons, qualifiedField]
      | _ =>
          rw [qualifiedFields, ih, List.map_cons, qualifiedField]
          · simp
          · simp

/-- A record has its fields, with full names in their types. -/
theorem member?_fields_qualified (scope : String) {fields : List Json}
    (hnodup : (Entries.keys members).Nodup)
    (hkind : members.lookup "type" = some (.string kind)) (hrecord : isRecordKind kind = true)
    (hfields : members.lookup "fields" = some (.array fields)) :
    (qualified scope (.object members)).member? "fields" =
      some (.array (qualifiedFields (Name.space (declaredName scope members)) fields)) := by
  rw [qualified_record hkind hrecord, Json.member?,
    lookup_rename _ (keys_qualifiedFieldsMember _ members ▸ hnodup) (by decide) (by decide),
    lookup_fields_qualifiedFieldsMember, hfields]

/-- With full names a definition has its other members as they were. -/
theorem member?_qualified (scope : String) (hnodup : (Entries.keys members).Nodup)
    (hkind : members.lookup "type" = some (.string kind)) (hnamed : isNamedKind kind = true)
    {key : String} (hname : key ≠ "name") (hspace : key ≠ "namespace")
    (hfields : isRecordKind kind = true → key ≠ "fields") :
    (qualified scope (.object members)).member? key = members.lookup key := by
  cases hrecord : isRecordKind kind with
  | true =>
      rw [qualified_record hkind hrecord, Json.member?,
        lookup_rename _ (keys_qualifiedFieldsMember _ members ▸ hnodup) hname hspace,
        lookup_qualifiedFieldsMember_of_ne (hfields hrecord)]
  | false =>
      rw [qualified_named hkind hnamed hrecord, Json.member?,
        lookup_rename _ hnodup hname hspace]

/-- With full names two definitions of one full name have those members in common that they had
in common, and their names and namespaces. -/
theorem member?_qualified_congr {others : List (String × Json)}
    (hnodup : (Entries.keys members).Nodup) (hnodup' : (Entries.keys others).Nodup)
    (hkind : members.lookup "type" = some (.string kind))
    (hkind' : others.lookup "type" = some (.string kind)) (hnamed : isNamedKind kind = true)
    (hdeclared : declaredName scope others = declaredName scope members) {key : String}
    (hmember : key ≠ "name" → key ≠ "namespace" → others.lookup key = members.lookup key) :
    (qualified scope (.object others)).member? key =
      (qualified scope (.object members)).member? key := by
  by_cases hname : key = "name"
  · subst hname
    rw [Json.textMember?_eq_some_iff.1 (textMember?_name_qualified scope hnodup hkind hnamed),
      Json.textMember?_eq_some_iff.1 (textMember?_name_qualified scope hnodup' hkind' hnamed),
      hdeclared]
  by_cases hspace : key = "namespace"
  · subst hspace
    rw [member?_namespace_qualified scope hnodup hkind hnamed,
      member?_namespace_qualified scope hnodup' hkind' hnamed]
  have hsame := hmember hname hspace
  cases hrecord : isRecordKind kind with
  | true =>
      have hrenamed :=
        keys_qualifiedFieldsMember (Name.space (declaredName scope members)) members ▸ hnodup
      have hrenamed' :=
        keys_qualifiedFieldsMember (Name.space (declaredName scope members)) others ▸ hnodup'
      rw [qualified_record hkind hrecord, qualified_record hkind' hrecord, hdeclared,
        Json.member?, Json.member?, lookup_rename _ hrenamed hname hspace,
        lookup_rename _ hrenamed' hname hspace]
      by_cases hfields : key = "fields"
      · subst hfields
        rw [lookup_fields_qualifiedFieldsMember, lookup_fields_qualifiedFieldsMember, hsame]
      · rw [lookup_qualifiedFieldsMember_of_ne hfields,
          lookup_qualifiedFieldsMember_of_ne hfields, hsame]
  | false =>
      rw [qualified_named hkind hnamed hrecord, qualified_named hkind' hnamed hrecord,
        Json.member?, Json.member?, lookup_rename _ hnodup hname hspace,
        lookup_rename _ hnodup' hname hspace, hsame]

end Definitions

end AvroBindings.Schema
