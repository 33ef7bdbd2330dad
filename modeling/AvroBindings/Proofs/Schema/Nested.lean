import AvroBindings.Proofs.Schema.Qualified
import AvroBindings.Proofs.Json.Same

/-!
# Definitions inside schemas

Which definitions stand at the type positions inside a schema, and that neither qualification
nor equality of trees changes where they stand.

## Main Definitions

* `Schema.IsDefinition` — a schema is of a kind that carries a name.
* `Schema.Nested` — a schema stands at a type position inside another.

## Main Statements

* `Schema.snd_parts_qualified` — the parts of a schema with full names are its parts with full
  names.
* `Schema.exists_mem_definitions_of_nested` — a definition inside a schema with full names is
  one of the definitions that are made before the schema's own.
* `Schema.exists_nested_of_same` — equal trees have equal schemas inside.

## Design Notes

A scope says how the names of a part are read, not where the part stands.  A schema with full
names has its parts in other scopes than the schema it comes from, so statements about both
leave the scopes out.
-/

namespace AvroBindings

namespace Schema

/-- A schema is of a kind that carries a name. -/
def IsDefinition (schema : Json) : Prop :=
  ∃ kind, schema.textMember? "type" = some kind ∧ isNamedKind kind = true

/-- A schema stands at a type position inside another. -/
def Nested (inner schema : Json) : Prop :=
  ∃ scope scope' part, part ∈ parts scope schema ∧ TypePosition part.1 part.2 scope' inner

theorem TypePosition.eq_or_within {scope scope' : String} {schema inner : Json}
    (h : TypePosition scope schema scope' inner) :
    inner = schema ∨ Json.Within inner schema := by
  induction h with
  | here scope schema => exact .inl rfl
  | inside member _ ih =>
      have hpart := within_of_mem_parts member
      rcases ih with rfl | hwithin
      · exact .inr hpart
      · exact .inr (.trans hwithin hpart)

/-- A name has no schema at a type position but itself. -/
theorem TypePosition.eq_of_string {scope scope' text : String} {inner : Json}
    (h : TypePosition scope (.string text) scope' inner) : inner = .string text := by
  cases h with
  | here => rfl
  | inside member _ => exact absurd member List.not_mem_nil

/-- What is nested in a schema stands inside it. -/
theorem Nested.within {inner schema : Json} (h : Nested inner schema) :
    Json.Within inner schema := by
  obtain ⟨scope, scope', part, hpart, hposition⟩ := h
  have hwithin := within_of_mem_parts hpart
  rcases hposition.eq_or_within with rfl | hinner
  · exact hwithin
  · exact .trans hinner hwithin

/-! ## Full names -/

section Lookup

variable {scope : String} {members : List (String × Json)}

theorem lookup_qualifiedMember_self (key scope : String) (members : List (String × Json)) :
    (qualifiedMember key scope members).lookup key =
      (members.lookup key).map (qualified scope) := by
  induction members with
  | nil => rw [qualifiedMember]; rfl
  | cons member rest ih =>
      obtain ⟨k, v⟩ := member
      rw [qualifiedMember]
      by_cases hk : k = key
      · subst hk
        simp
      · rw [if_neg hk, List.lookup_cons, List.lookup_cons, beq_eq_false_iff_ne.2 (Ne.symm hk)]
        exact ih

theorem lookup_qualifiedMember_of_ne {key other : String} (hne : other ≠ key) :
    (qualifiedMember key scope members).lookup other = members.lookup other := by
  induction members with
  | nil => rw [qualifiedMember]
  | cons member rest ih =>
      obtain ⟨k, v⟩ := member
      rw [qualifiedMember]
      by_cases hk : k = key
      · subst hk
        rw [if_pos rfl, List.lookup_cons, List.lookup_cons, beq_eq_false_iff_ne.2 hne]
      · rw [if_neg hk, List.lookup_cons, List.lookup_cons, ih]

theorem lookup_qualifiedFieldsMember_of_ne {key : String} (hne : key ≠ "fields") :
    (qualifiedFieldsMember scope members).lookup key = members.lookup key := by
  induction members with
  | nil => rw [qualifiedFieldsMember]
  | cons member rest ih =>
      obtain ⟨k, v⟩ := member
      cases v with
      | array fields =>
          rw [qualifiedFieldsMember]
          by_cases hk : k = "fields"
          · subst hk
            rw [if_pos rfl, List.lookup_cons, List.lookup_cons, beq_eq_false_iff_ne.2 hne]
          · rw [if_neg hk, List.lookup_cons, List.lookup_cons, ih]
      | _ =>
          rw [qualifiedFieldsMember]
          · rw [List.lookup_cons, List.lookup_cons, ih]
          · simp

/-- The fields of a record get full names if they are an array. -/
theorem lookup_fields_qualifiedFieldsMember :
    (qualifiedFieldsMember scope members).lookup "fields" =
      match members.lookup "fields" with
      | some (.array fields) => some (.array (qualifiedFields scope fields))
      | other => other := by
  induction members with
  | nil => rw [qualifiedFieldsMember]; rfl
  | cons member rest ih =>
      obtain ⟨k, v⟩ := member
      by_cases hk : k = "fields"
      · subst hk
        cases v with
        | array fields =>
            rw [qualifiedFieldsMember]
            simp
        | _ =>
            rw [qualifiedFieldsMember]
            · simp
            · simp
      · have hbeq : ("fields" == k) = false := beq_eq_false_iff_ne.2 (Ne.symm hk)
        cases v with
        | array fields =>
            rw [qualifiedFieldsMember, if_neg hk, List.lookup_cons, List.lookup_cons, hbeq]
            exact ih
        | _ =>
            rw [qualifiedFieldsMember]
            · rw [List.lookup_cons, List.lookup_cons, hbeq]
              exact ih
            · simp

theorem fieldTypes_qualifiedFields (scope : String) (fields : List Json) :
    fieldTypes (qualifiedFields scope fields) = (fieldTypes fields).map (qualified scope) := by
  unfold fieldTypes
  induction fields with
  | nil => rw [qualifiedFields]; rfl
  | cons field rest ih =>
      cases field with
      | object members =>
          rw [qualifiedFields, List.filterMap_cons, List.filterMap_cons, Json.member?,
            Json.member?, lookup_qualifiedMember_self, ih]
          cases members.lookup "type" <;> rfl
      | _ =>
          rw [qualifiedFields]
          · exact ih
          · simp

/-- A definition is found under all keys but its name and namespace as it was. -/
theorem lookup_rename (fullName : String) {key : String} (hnodup : (Entries.keys members).Nodup)
    (hname : key ≠ "name") (hspace : key ≠ "namespace") :
    (rename fullName members).lookup key = members.lookup key := by
  rw [rename, Entries.lookup_swapErase_of_ne hspace (Entries.keys_nodup_insert hnodup),
    Entries.lookup_insert, if_neg hname]

theorem lookup_namespace_rename (fullName : String) (hnodup : (Entries.keys members).Nodup) :
    (rename fullName members).lookup "namespace" = none :=
  Entries.lookup_swapErase_self (Entries.keys_nodup_insert hnodup)

end Lookup

/-- What has full names is an object, an array or neither as it was before. -/
theorem exists_qualified_eq_object (scope : String) (members : List (String × Json)) :
    ∃ members', qualified scope (.object members) = .object members' := by
  rw [qualified]
  split
  · dsimp only
    split
    · exact ⟨_, rfl⟩
    · split
      · exact ⟨_, rfl⟩
      · split
        · exact ⟨_, rfl⟩
        · exact ⟨_, rfl⟩
  · exact ⟨_, rfl⟩
  · exact ⟨_, rfl⟩
  · exact ⟨_, rfl⟩

theorem qualifiedItems_eq_map (scope : String) (items : List Json) :
    qualifiedItems scope items = items.map (qualified scope) := by
  induction items with
  | nil => rw [qualifiedItems]; rfl
  | cons item rest ih => rw [qualifiedItems, ih, List.map_cons]

/-! ### Parts -/

section Objects

variable {scope kind : String} {members : List (String × Json)}

theorem qualified_record (hkind : members.lookup "type" = some (.string kind))
    (hrecord : isRecordKind kind = true) :
    qualified scope (.object members) = .object (rename (declaredName scope members)
      (qualifiedFieldsMember (Name.space (declaredName scope members)) members)) := by
  simp [qualified, hkind, hrecord]

theorem qualified_named (hkind : members.lookup "type" = some (.string kind))
    (hnamed : isNamedKind kind = true) (hrecord : isRecordKind kind = false) :
    qualified scope (.object members) =
      .object (rename (declaredName scope members) members) := by
  simp [qualified, hkind, hnamed, hrecord]

theorem qualified_container (hkind : members.lookup "type" = some (.string kind))
    (hnamed : isNamedKind kind = false) {key : String} (hkey : partKey? kind = some key) :
    qualified scope (.object members) = .object (qualifiedMember key scope members) := by
  simp [qualified, hkind, hnamed, isRecordKind_eq_false hnamed, hkey]

theorem qualified_unknown (hkind : members.lookup "type" = some (.string kind))
    (hnamed : isNamedKind kind = false) (hkey : partKey? kind = none) :
    qualified scope (.object members) = .object members := by
  simp [qualified, hkind, hnamed, isRecordKind_eq_false hnamed, hkey]

theorem qualified_wrapper {inner : Json} (hinner : members.lookup "type" = some inner)
    (hcompound : (∃ inside, inner = .object inside) ∨ ∃ items, inner = .array items) :
    qualified scope (.object members) = .object (qualifiedMember "type" scope members) := by
  rcases hcompound with ⟨inside, rfl⟩ | ⟨items, rfl⟩ <;> simp [qualified, hinner]

theorem partKey?_ne_type {key : String} (hkey : partKey? kind = some key) : "type" ≠ key := by
  unfold partKey? at hkey
  split at hkey
  · cases hkey
    decide
  · split at hkey
    · cases hkey
      decide
    · contradiction

/-- **An object that states a kind states the same kind with full names.** -/
theorem lookup_type_qualified (scope : String) (hnodup : (Entries.keys members).Nodup)
    (hkind : members.lookup "type" = some (.string kind)) :
    (qualified scope (.object members)).member? "type" = some (.string kind) := by
  have htype : ("type" : String) ≠ "name" ∧ ("type" : String) ≠ "namespace" ∧
      ("type" : String) ≠ "fields" := by decide
  cases hrecord : isRecordKind kind with
  | true =>
      rw [qualified_record hkind hrecord, Json.member?,
        lookup_rename _ (keys_qualifiedFieldsMember _ members ▸ hnodup) htype.1 htype.2.1,
        lookup_qualifiedFieldsMember_of_ne htype.2.2, hkind]
  | false =>
      cases hnamed : isNamedKind kind with
      | true =>
          rw [qualified_named hkind hnamed hrecord, Json.member?,
            lookup_rename _ hnodup htype.1 htype.2.1, hkind]
      | false =>
          cases hkey : partKey? kind with
          | none => rw [qualified_unknown hkind hnamed hkey, Json.member?, hkind]
          | some key =>
              rw [qualified_container hkind hnamed hkey, Json.member?,
                lookup_qualifiedMember_of_ne (partKey?_ne_type hkey), hkind]

theorem snd_parts_qualified_record (scope' : String) (hnodup : (Entries.keys members).Nodup)
    (hkind : members.lookup "type" = some (.string kind)) (hrecord : isRecordKind kind = true) :
    (parts scope' (qualified scope (.object members))).map Prod.snd =
      (parts scope (.object members)).map fun part => qualified part.1 part.2 := by
  have hkind' := lookup_type_qualified scope hnodup hkind
  rw [qualified_record hkind hrecord] at hkind' ⊢
  have hfields : ("fields" : String) ≠ "name" ∧ ("fields" : String) ≠ "namespace" := by decide
  have hlookup :=
    lookup_rename (declaredName scope members)
      (keys_qualifiedFieldsMember (Name.space (declaredName scope members)) members ▸ hnodup)
      hfields.1 hfields.2
  rw [lookup_fields_qualifiedFieldsMember] at hlookup
  rw [Json.member?] at hkind'
  simp only [parts, hkind, hkind', hrecord, hlookup, if_true]
  cases members.lookup "fields" with
  | none => rfl
  | some fields =>
      cases fields with
      | array fields =>
          simp only [fieldTypes_qualifiedFields, List.map_map]
          rfl
      | _ => rfl

theorem snd_parts_qualified_kind (scope' : String) (hnodup : (Entries.keys members).Nodup)
    (hkind : members.lookup "type" = some (.string kind)) :
    (parts scope' (qualified scope (.object members))).map Prod.snd =
      (parts scope (.object members)).map fun part => qualified part.1 part.2 := by
  cases hrecord : isRecordKind kind with
  | true => exact snd_parts_qualified_record scope' hnodup hkind hrecord
  | false =>
      have hkind' := lookup_type_qualified scope hnodup hkind
      cases hnamed : isNamedKind kind with
      | true =>
          rw [qualified_named hkind hnamed hrecord] at hkind' ⊢
          rw [Json.member?] at hkind'
          simp [parts, hkind, hkind', hrecord, partKey?_of_isNamedKind hnamed]
      | false =>
          cases hkey : partKey? kind with
          | none =>
              rw [qualified_unknown hkind hnamed hkey]
              simp [parts, hkind, hrecord, hkey]
          | some key =>
              rw [qualified_container hkind hnamed hkey] at hkind' ⊢
              rw [Json.member?] at hkind'
              simp only [parts, hkind, hkind', hrecord, hkey, Option.bind_some,
                lookup_qualifiedMember_self]
              cases members.lookup key <;> simp

end Objects

/-- **The parts of a schema with full names are its parts with full names.** -/
theorem snd_parts_qualified (scope scope' : String) {schema : Json}
    (h : schema.wellFormed = true) :
    (parts scope' (qualified scope schema)).map Prod.snd =
      (parts scope schema).map fun part => qualified part.1 part.2 := by
  cases schema with
  | array items =>
      rw [qualified, qualifiedItems_eq_map, parts, parts, List.map_map, List.map_map,
        List.map_map]
      rfl
  | object members =>
      have hnodup := (Json.wellFormed_object_iff.1 h).1
      cases hlookup : members.lookup "type" with
      | none => simp [qualified, parts, hlookup]
      | some inner =>
          cases inner with
          | string kind => exact snd_parts_qualified_kind scope' hnodup hlookup
          -- A wrapper is told by what its type is, and that is an object or an array with full
          -- names as well.
          | object inside =>
              have hinside := lookup_qualifiedMember_self "type" scope members
              obtain ⟨inside', hinside'⟩ := exists_qualified_eq_object scope inside
              rw [hlookup, Option.map_some, hinside'] at hinside
              rw [qualified_wrapper hlookup (.inl ⟨_, rfl⟩)]
              simp [parts, hlookup, hinside, hinside']
          | array items =>
              have hitems := lookup_qualifiedMember_self "type" scope members
              rw [hlookup, Option.map_some, qualified] at hitems
              rw [qualified_wrapper hlookup (.inr ⟨_, rfl⟩)]
              simp [parts, hlookup, hitems, qualified]
          | _ => simp [qualified, parts, hlookup]
  | _ => simp [qualified, parts]

/-! ### Definitions -/

/-- **A schema states the same kind with full names**, or none as before. -/
theorem textMember?_type_qualified (scope : String) {schema : Json}
    (h : schema.wellFormed = true) :
    (qualified scope schema).textMember? "type" = schema.textMember? "type" := by
  cases schema with
  | object members =>
      have hnodup := (Json.wellFormed_object_iff.1 h).1
      rw [Json.textMember?, Json.textMember?]
      cases hlookup : members.lookup "type" with
      | none => simp [qualified, Json.member?, hlookup]
      | some inner =>
          cases inner with
          | string kind =>
              rw [lookup_type_qualified scope hnodup hlookup, Json.member?, hlookup]
          | object inside =>
              obtain ⟨inside', hinside'⟩ := exists_qualified_eq_object scope inside
              rw [qualified_wrapper hlookup (.inl ⟨_, rfl⟩), Json.member?, Json.member?,
                lookup_qualifiedMember_self, hlookup, Option.map_some, hinside']
              rfl
          | array items =>
              rw [qualified_wrapper hlookup (.inr ⟨_, rfl⟩), Json.member?, Json.member?,
                lookup_qualifiedMember_self, hlookup, Option.map_some, qualified]
              rfl
          | _ => simp [qualified, Json.member?, hlookup]
  | _ => simp [qualified, Json.textMember?, Json.member?]

/-- **A schema is a definition with full names exactly if it was one before.** -/
theorem isDefinition_qualified_iff {scope : String} {schema : Json}
    (h : schema.wellFormed = true) :
    IsDefinition (qualified scope schema) ↔ IsDefinition schema := by
  unfold IsDefinition
  rw [textMember?_type_qualified scope h]

/-- What stands at a type position of a schema with full names stood there before, without
them. -/
theorem TypePosition.exists_of_qualified {scope scope' scope'' : String} {schema inner : Json}
    (h : schema.wellFormed = true)
    (hposition : TypePosition scope' (qualified scope schema) scope'' inner) :
    ∃ own original, TypePosition scope schema own original ∧ original.wellFormed = true ∧
      inner = qualified own original := by
  generalize hqualified : qualified scope schema = schema' at hposition
  induction hposition generalizing scope schema with
  | here _ _ => exact ⟨scope, schema, .here _ _, h, hqualified.symm⟩
  | @inside scope' _ schema' _ part member _ ih =>
      subst hqualified
      have hpart : part.2 ∈ (parts scope' (qualified scope schema)).map Prod.snd :=
        List.mem_map_of_mem member
      rw [snd_parts_qualified scope scope' h] at hpart
      obtain ⟨original, horiginal, heq⟩ := List.mem_map.1 hpart
      have hwell := Json.wellFormed_of_within h (within_of_mem_parts horiginal)
      obtain ⟨own, found, hfound, hwell', hinner⟩ := ih hwell heq
      exact ⟨own, found, .inside horiginal hfound, hwell', hinner⟩

/-- The definition that stands at a type position of a schema is one of those the schema
makes. -/
theorem TypePosition.ownDefinition_subset {scope scope' : String} {schema inner : Json}
    (h : TypePosition scope schema scope' inner) :
    ownDefinition scope' inner ⊆ definitions scope schema := by
  induction h with
  | here scope schema =>
      rw [definitions_eq]
      exact List.subset_append_right _ _
  | @inside scope _ schema _ part member _ ih =>
      rw [definitions_eq, definitionsOfAll]
      intro definition hmem
      exact List.mem_append_left _ (List.mem_flatMap.2 ⟨part, member, ih hmem⟩)

/-- A definition makes a definition of its own. -/
theorem exists_ownDefinition (scope : String) {schema : Json} (h : IsDefinition schema) :
    ∃ name, ownDefinition scope schema = [(name, qualified scope schema)] := by
  obtain ⟨kind, hkind, hnamed⟩ := h
  cases schema with
  | object members =>
      obtain ⟨ty, hlookup, htext⟩ := Option.bind_eq_some_iff.1 hkind
      cases ty with
      | string kind' =>
          obtain rfl : kind' = kind := Option.some.inj htext
          rw [Json.member?] at hlookup
          exact ⟨declaredName scope members, by simp [ownDefinition, hlookup, hnamed]⟩
      | _ => simp [Json.text?] at htext
  | _ => simp [Json.textMember?, Json.member?] at hkind

/-- **A definition inside a schema with full names** is one of the definitions in the parts of
the schema, as it is there. -/
theorem exists_mem_definitions_of_nested {scope : String} {schema inner : Json}
    (h : schema.wellFormed = true) (hnested : Nested inner (qualified scope schema))
    (hinner : IsDefinition inner) :
    ∃ name, inner.textMember? "name" = some name ∧
    (name, inner) ∈ definitionsOfAll (parts scope schema) := by
  obtain ⟨scope', scope'', part, hpart, hposition⟩ := hnested
  have hmem : part.2 ∈ (parts scope' (qualified scope schema)).map Prod.snd :=
    List.mem_map_of_mem hpart
  rw [snd_parts_qualified scope scope' h] at hmem
  obtain ⟨original, horiginal, heq⟩ := List.mem_map.1 hmem
  have hwell := Json.wellFormed_of_within h (within_of_mem_parts horiginal)
  obtain ⟨own, found, hfound, hwell', rfl⟩ := (heq ▸ hposition).exists_of_qualified hwell
  obtain ⟨name, hname⟩ :=
    exists_ownDefinition own ((isDefinition_qualified_iff hwell').1 hinner)
  have hdefinition : (name, qualified own found) ∈ definitions original.1 original.2 :=
    hfound.ownDefinition_subset (hname ▸ List.mem_singleton_self _)
  exact ⟨name, name_of_mem_definitions hwell hdefinition,
    List.mem_flatMap.2 ⟨original, horiginal, hdefinition⟩⟩

end Schema

/-! ## Equal trees -/

namespace Json

/-- Equal trees have equal members. -/
theorem member?_of_same {x y : Json} (hx : x.wellFormed = true) (hy : y.wellFormed = true)
    (h : x.same y = true) (key : String) :
    Option.Rel (fun v w => v.same w = true) (x.member? key) (y.member? key) := by
  cases x with
  | object ms =>
      cases y with
      | object ns =>
          obtain ⟨hkeys, hmembers⟩ :=
            (same_object_iff (wellFormed_object_iff.1 hx).1 (wellFormed_object_iff.1 hy).1).1 h
          rw [member?, member?]
          cases hv : ms.lookup key with
          | none =>
              rw [Entries.lookup_eq_none_iff, hkeys, ← Entries.lookup_eq_none_iff] at hv
              rw [hv]
              exact .none
          | some v =>
              obtain ⟨w, hw⟩ :=
                Entries.exists_lookup ((hkeys key).1 (Entries.mem_keys_of_lookup hv))
              rw [hw]
              exact .some (hmembers key v w hv hw)
      | _ => simp [same] at h
  | _ => cases y <;> simp_all [same, member?]

/-- A member of a tree has an equal one in every equal tree. -/
theorem exists_member?_of_same {x y v : Json} {key : String} (hx : x.wellFormed = true)
    (hy : y.wellFormed = true) (h : x.same y = true) (hv : x.member? key = some v) :
    ∃ w, y.member? key = some w ∧ v.same w = true :=
  exists_of_rel (member?_of_same hx hy h key) hv

/-- Equal trees have the same texts as members. -/
theorem textMember?_of_same {x y : Json} (hx : x.wellFormed = true) (hy : y.wellFormed = true)
    (h : x.same y = true) (key : String) : x.textMember? key = y.textMember? key := by
  have hmember := member?_of_same hx hy h key
  rw [textMember?, textMember?]
  generalize x.member? key = v at hmember ⊢
  generalize y.member? key = w at hmember ⊢
  cases hmember with
  | none => rfl
  | @some v w hsame => cases v <;> cases w <;> simp_all [same, text?]

end Json

namespace Schema

theorem fieldTypes_of_same {xs ys : List Json} (hxs : ∀ x ∈ xs, x.wellFormed = true)
    (hys : ∀ y ∈ ys, y.wellFormed = true)
    (h : List.Forall₂ (fun x y => x.same y = true) xs ys) :
    List.Forall₂ (fun x y => x.same y = true) (fieldTypes xs) (fieldTypes ys) := by
  unfold fieldTypes
  induction h with
  | nil => exact .nil
  | @cons x y xs ys hsame _ ih =>
      rw [List.forall_mem_cons] at hxs hys
      have hrest := ih hxs.2 hys.2
      have hmember := Json.member?_of_same hxs.1 hys.1 hsame "type"
      rw [List.filterMap_cons, List.filterMap_cons]
      generalize x.member? "type" = v at hmember ⊢
      generalize y.member? "type" = w at hmember ⊢
      cases hmember with
      | none => exact hrest
      | some hsame' => exact .cons hsame' hrest

/-- Equal objects of a kind have equal parts. -/
theorem parts_of_same_kind (scope scope' : String) {ms ns : List (String × Json)}
    {kind : String} (hx : (Json.object ms).wellFormed = true)
    (hy : (Json.object ns).wellFormed = true) (h : (Json.object ms).same (.object ns) = true)
    (hkind : ms.lookup "type" = some (.string kind))
    (hkind' : ns.lookup "type" = some (.string kind)) :
    List.Forall₂ (fun p q => p.2.same q.2 = true) (parts scope (.object ms))
      (parts scope' (.object ns)) := by
  simp only [parts, hkind, hkind']
  cases isRecordKind kind with
  | true =>
      have hfields := Json.member?_of_same hx hy h "fields"
      simp only [Json.member?, if_true] at hfields ⊢
      cases hv : ms.lookup "fields" with
      | none =>
          rw [hv] at hfields
          generalize ns.lookup "fields" = w at hfields ⊢
          cases hfields
          exact .nil
      | some v =>
          cases hw : ns.lookup "fields" with
          | none =>
              rw [hv, hw] at hfields
              cases hfields
          | some w =>
              rw [hv, hw, Option.rel_some_some] at hfields
              cases v with
              | array xs =>
                  cases w with
                  | array ys =>
                      rw [Json.same, Json.sameItems_iff] at hfields
                      simp only [List.forall₂_map_left_iff, List.forall₂_map_right_iff]
                      exact fieldTypes_of_same
                        (Json.wellFormed_array_iff.1 (Json.wellFormed_of_lookup hx hv))
                        (Json.wellFormed_array_iff.1 (Json.wellFormed_of_lookup hy hw)) hfields
                  | _ => simp [Json.same] at hfields
              | _ => cases w <;> simp_all [Json.same]
  | false =>
      cases partKey? kind with
      | none => exact .nil
      | some key =>
          have hpart := Json.member?_of_same hx hy h key
          simp only [Json.member?, Option.bind_some, Bool.false_eq_true, if_false] at hpart ⊢
          generalize ms.lookup key = v at hpart ⊢
          generalize ns.lookup key = w at hpart ⊢
          cases hpart with
          | none => exact .nil
          | some hsame => exact .cons hsame .nil

/-- **Equal trees have equal parts**, whatever the scopes. -/
theorem parts_of_same (scope scope' : String) {x y : Json} (hx : x.wellFormed = true)
    (hy : y.wellFormed = true) (h : x.same y = true) :
    List.Forall₂ (fun p q => p.2.same q.2 = true) (parts scope x) (parts scope' y) := by
  cases x with
  | array xs =>
      cases y with
      | array ys =>
          rw [Json.same, Json.sameItems_iff] at h
          rw [parts, parts, List.forall₂_map_left_iff, List.forall₂_map_right_iff]
          exact h
      | _ => simp [Json.same] at h
  | object ms =>
      cases y with
      | object ns =>
          have htype := Json.member?_of_same hx hy h "type"
          simp only [Json.member?] at htype
          cases hv : ms.lookup "type" with
          | none =>
              cases hw : ns.lookup "type" with
              | none => simp [parts, hv, hw]
              | some w => simp [hv, hw] at htype
          | some v =>
              cases hw : ns.lookup "type" with
              | none => simp [hv, hw] at htype
              | some w =>
                  rw [hv, hw, Option.rel_some_some] at htype
                  cases v with
                  | string kind =>
                      cases w with
                      | string kind' =>
                          obtain rfl : kind = kind' := by simpa [Json.same] using htype
                          exact parts_of_same_kind scope scope' hx hy h hv hw
                      | _ => simp [Json.same] at htype
                  | _ => cases w <;> simp_all [Json.same, parts]
      | _ => simp [Json.same] at h
  | _ => cases y <;> simp_all [Json.same, parts]

theorem isDefinition_of_same {x y : Json} (hx : x.wellFormed = true) (hy : y.wellFormed = true)
    (h : x.same y = true) (hy' : IsDefinition y) : IsDefinition x := by
  unfold IsDefinition at hy' ⊢
  rwa [Json.textMember?_of_same hx hy h]

theorem exists_part_of_same (scope : String) {scope' : String} {x y : Json}
    {part : String × Json} (hx : x.wellFormed = true) (hy : y.wellFormed = true)
    (h : x.same y = true) (hpart : part ∈ parts scope' y) :
    ∃ other ∈ parts scope x, other.2.wellFormed = true ∧ part.2.wellFormed = true ∧
    other.2.same part.2 = true := by
  obtain ⟨other, hother, hsame⟩ :=
    exists_left_of_forall₂ (parts_of_same scope scope' hx hy h) hpart
  exact ⟨other, hother, Json.wellFormed_of_within hx (within_of_mem_parts hother),
    Json.wellFormed_of_within hy (within_of_mem_parts hpart), hsame⟩

/-- What stands at a type position of a tree stands, as an equal tree, at one of an equal
tree. -/
theorem TypePosition.exists_of_same (scope : String) {scope' scope'' : String}
    {x y inner : Json} (hx : x.wellFormed = true) (hy : y.wellFormed = true)
    (h : x.same y = true) (hposition : TypePosition scope' y scope'' inner) :
    ∃ own original, TypePosition scope x own original ∧ original.wellFormed = true ∧
    original.same inner = true := by
  induction hposition generalizing scope x with
  | here _ _ => exact ⟨scope, x, .here _ _, hx, h⟩
  | inside member _ ih =>
      obtain ⟨other, hother, hwell, hwell', hsame⟩ := exists_part_of_same scope hx hy h member
      obtain ⟨own, original, hposition, hinner⟩ := ih other.1 hwell hwell' hsame
      exact ⟨own, original, .inside hother hposition, hinner⟩

/-- **Equal trees have equal schemas inside.** -/
theorem exists_nested_of_same {x y inner : Json} (hx : x.wellFormed = true)
    (hy : y.wellFormed = true) (h : x.same y = true) (hnested : Nested inner y) :
    ∃ original, Nested original x ∧ original.wellFormed = true ∧
    original.same inner = true := by
  obtain ⟨scope, scope', part, hpart, hposition⟩ := hnested
  obtain ⟨other, hother, hwell, hwell', hsame⟩ := exists_part_of_same scope hx hy h hpart
  obtain ⟨own, original, hposition', hinner⟩ :=
    hposition.exists_of_same other.1 hwell hwell' hsame
  exact ⟨original, ⟨scope, own, other, hother, hposition'⟩, hinner⟩

end Schema

end AvroBindings
