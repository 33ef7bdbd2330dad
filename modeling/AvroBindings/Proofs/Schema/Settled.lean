import AvroBindings.Proofs.Schema.Members
import AvroBindings.Proofs.Schema.Qualify

/-!
# Qualified once and again

A schema with full names is one in which qualification finds nothing left to do, so that it may
be read any number of times.

## Main Definitions

* `Schema.Settled` — every name at a type position is a full name, and no definition states a
  namespace.
* `Schema.StaysInScope` — no definition gives up the namespace around it for none.

## Main Statements

* `Schema.qualified_eq_self` — qualification leaves a settled schema as it is.
* `Schema.settled_qualified` — a schema with full names is settled.
* `Schema.definitions_qualified`, `Schema.WellFormed.qualified` — it makes the same definitions,
  and nothing is missing in it.
* `Schema.parse_again` — a document that was parsed can be parsed again, alone or after itself.

## Design Notes

**Scopes.**  With full names a definition states no namespace any more, so it is read in the
scope around it.  Its full name says the rest if it has a dot.  Without a dot it is read as it
was only where no namespace is in scope; a definition that states the empty namespace inside
another one is the only one that is not.
-/

namespace AvroBindings

namespace Schema

/-! ## Settled schemas -/

/-- **A schema is settled**: read in their scopes, the texts at its type positions are full
names, and its definitions have their full names as their names and state no namespace. -/
structure Settled (scope : String) (schema : Json) : Prop where
  reference : ∀ scope' name, TypePosition scope schema scope' (.string name) →
    qualifyReference scope' name = name
  definition : ∀ scope' members, TypePosition scope schema scope' (.object members) →
    IsDefinition (.object members) →
    members.lookup "name" = some (.string (declaredName scope' members)) ∧
    members.lookup "namespace" = none

/-- **No definition gives up the namespace around it**: one whose full name has no dot stands
where no namespace is in scope. -/
def StaysInScope (scope : String) (schema : Json) : Prop :=
  ∀ scope' members, TypePosition scope schema scope' (.object members) →
    IsDefinition (.object members) →
    Name.isDotted (declaredName scope' members) = false → scope' = ""

section Parts

variable {scope : String} {schema : Json} {part : String × Json}

theorem Settled.of_mem_parts (h : Settled scope schema) (hpart : part ∈ parts scope schema) :
    Settled part.1 part.2 where
  reference scope' name hposition := h.reference scope' name (.inside hpart hposition)
  definition scope' members hposition := h.definition scope' members (.inside hpart hposition)

theorem StaysInScope.of_mem_parts (h : StaysInScope scope schema)
    (hpart : part ∈ parts scope schema) :
    StaysInScope part.1 part.2 :=
  fun scope' members hposition => h scope' members (.inside hpart hposition)

/-- No definition of a schema gives up the namespace around it if neither the schema nor its
parts do. -/
theorem StaysInScope.of_parts
    (hdefinition : ∀ members, schema = .object members → IsDefinition schema →
      Name.isDotted (declaredName scope members) = false → scope = "")
    (hparts : ∀ part ∈ parts scope schema, StaysInScope part.1 part.2) :
    StaysInScope scope schema := by
  intro scope' members hposition hkind hundotted
  cases hposition with
  | here => exact hdefinition members rfl hkind hundotted
  | inside hpart hposition => exact hparts _ hpart scope' members hposition hkind hundotted

/-- A schema is settled if its outside and its parts are. -/
theorem Settled.of_parts
    (hreference : ∀ name, schema = .string name → qualifyReference scope name = name)
    (hdefinition : ∀ members, schema = .object members → IsDefinition schema →
      members.lookup "name" = some (.string (declaredName scope members)) ∧
      members.lookup "namespace" = none)
    (hparts : ∀ part ∈ parts scope schema, Settled part.1 part.2) : Settled scope schema := by
  constructor
  · intro scope' name hposition
    cases hposition with
    | here => exact hreference name rfl
    | inside hpart hposition => exact (hparts _ hpart).reference scope' name hposition
  · intro scope' members hposition hkind
    cases hposition with
    | here => exact hdefinition members rfl hkind
    | inside hpart hposition => exact (hparts _ hpart).definition scope' members hposition hkind

end Parts

/-! ## Nothing left to do -/

section Members

variable {scope key : String} {members : List (String × Json)}

theorem rename_eq_self {fullName : String}
    (hname : members.lookup "name" = some (.string fullName))
    (hspace : members.lookup "namespace" = none) : rename fullName members = members := by
  rw [rename, Entries.insert_of_lookup hname,
    Entries.swapErase_of_notMem (Entries.lookup_eq_none_iff.1 hspace)]

theorem qualifiedMember_eq_self (hnodup : (Entries.keys members).Nodup)
    (h : ∀ part, members.lookup key = some part → qualified scope part = part) :
    qualifiedMember key scope members = members := by
  refine Entries.eq_of_lookup_eq (keys_qualifiedMember key scope members) hnodup fun other => ?_
  by_cases hother : other = key
  · rw [hother, lookup_qualifiedMember_self]
    cases hpart : members.lookup key with
    | none => rfl
    | some part => rw [Option.map_some, h part hpart]
  · exact lookup_qualifiedMember_of_ne hother

theorem qualifiedFields_eq_self {fields : List Json}
    (hfields : ∀ field ∈ fields, field.wellFormed = true)
    (h : ∀ ty ∈ fieldTypes fields, qualified scope ty = ty) :
    qualifiedFields scope fields = fields := by
  have hself : fields.map (qualifiedField scope) = fields.map id := by
    refine List.map_congr_left fun field hfield => ?_
    cases field with
    | object fieldMembers =>
        rw [qualifiedField,
          qualifiedMember_eq_self (Json.wellFormed_object_iff.1 (hfields _ hfield)).1]
        · rfl
        · exact fun ty hty => h ty (List.mem_filterMap.2 ⟨_, hfield, hty⟩)
    | _ => rfl
  rw [qualifiedFields_eq_map, hself, List.map_id]

theorem qualifiedFieldsMember_eq_self (hnodup : (Entries.keys members).Nodup)
    (h : ∀ fields, members.lookup "fields" = some (.array fields) →
      qualifiedFields scope fields = fields) :
    qualifiedFieldsMember scope members = members := by
  refine Entries.eq_of_lookup_eq (keys_qualifiedFieldsMember scope members) hnodup
    fun other => ?_
  by_cases hother : other = "fields"
  · rw [hother, lookup_fields_qualifiedFieldsMember]
    split
    next fields hfields => rw [hfields, h fields hfields]
    next => rfl
  · exact lookup_qualifiedFieldsMember_of_ne hother

end Members

/-- **Qualification leaves a settled schema as it is.** -/
theorem qualified_eq_self {scope : String} {schema : Json} (hschema : schema.wellFormed = true)
    (h : Settled scope schema) : qualified scope schema = schema := by
  induction scope, schema using Schema.induction with
  | step scope schema ih =>
      have hpart : ∀ part ∈ parts scope schema, qualified part.1 part.2 = part.2 :=
        fun part hmem =>
        ih part hmem (Json.wellFormed_of_within hschema (within_of_mem_parts hmem))
          (h.of_mem_parts hmem)
      cases schema with
      | string name => rw [qualified, h.reference scope name (.here _ _)]
      | array items =>
          rw [qualified, qualifiedItems_eq_map]
          have hitems : items.map (qualified scope) = items.map id :=
            List.map_congr_left fun item hitem =>
              hpart (scope, item) (List.mem_map_of_mem hitem)
          rw [hitems, List.map_id]
      | object members =>
          have hnodup := (Json.wellFormed_object_iff.1 hschema).1
          cases hkey : innerKey? members with
          | some key =>
              rw [qualified_of_innerKey? hkey, qualifiedMember_eq_self hnodup]
              intro part hfound
              exact hpart (scope, part) (by simp [parts_of_innerKey? hkey hfound])
          | none =>
              by_cases hdefinition : IsDefinition (.object members)
              · obtain ⟨hname, hspace⟩ := h.definition scope members (.here _ _) hdefinition
                obtain ⟨kind, hkind, hnamed⟩ := isDefinition_object_iff.1 hdefinition
                cases hrecord : isRecordKind kind with
                | true =>
                    rw [qualified_record hkind hrecord, qualifiedFieldsMember_eq_self hnodup,
                      rename_eq_self hname hspace]
                    intro fields hfields
                    have hwell := Json.wellFormed_of_lookup hschema hfields
                    refine qualifiedFields_eq_self (Json.wellFormed_array_iff.1 hwell)
                      fun ty hty => ?_
                    exact hpart (Name.space (declaredName scope members), ty)
                      (mem_parts_of_mem_fieldTypes hkind hrecord hfields hty)
                | false =>
                    rw [qualified_named hkind hnamed hrecord, rename_eq_self hname hspace]
              · exact qualified_of_innerKey?_eq_none hkey hdefinition
      | _ => rw [qualified] <;> simp

/-! ## Full names -/

section Qualified

variable {scope : String} {members members' : List (String × Json)}

/-- With full names a definition is read under the full name that it had, if it did not give up
its scope. -/
theorem declaredName_qualified (hnodup : (Entries.keys members).Nodup)
    (hdefinition : IsDefinition (.object members))
    (hstays : Name.isDotted (declaredName scope members) = false → scope = "")
    (hqualified : qualified scope (.object members) = .object members') :
    declaredName scope members' = declaredName scope members := by
  obtain ⟨kind, hkind, hnamed⟩ := isDefinition_object_iff.1 hdefinition
  have hname := textMember?_name_qualified scope hnodup hkind hnamed
  have hspace := member?_namespace_qualified scope hnodup hkind hnamed
  rw [hqualified] at hname hspace
  rw [declaredName, hname, Json.textMember?, hspace, Option.bind_none, Option.getD_none,
    Option.getD_some, Name.qualify]
  cases hdotted : Name.isDotted (declaredName scope members) with
  | true => rfl
  | false => simp [hstays hdotted]

end Qualified

/-- With full names a schema has its parts in the same scopes. -/
theorem innerScope_qualified {scope : String} {schema : Json}
    (hschema : schema.wellFormed = true) (hstays : StaysInScope scope schema) :
    innerScope scope (qualified scope schema) = innerScope scope schema := by
  cases schema with
  | object members =>
      obtain ⟨members', hqualified⟩ := exists_qualified_eq_object scope members
      have htype := textMember?_type_qualified scope hschema
      rw [hqualified] at htype ⊢
      rw [innerScope, innerScope, htype]
      split
      next hany =>
        obtain ⟨kind, hkind, hrecord⟩ := (Option.any_eq_true _ _).1 hany
        have hdefinition : IsDefinition (.object members) :=
          ⟨kind, hkind, isNamedKind_of_isRecordKind hrecord⟩
        rw [declaredName_qualified (Json.wellFormed_object_iff.1 hschema).1 hdefinition
          (hstays scope members (.here _ _) hdefinition) hqualified]
      next => rfl
  | _ => simp [qualified, innerScope]

/-- **The parts of a schema with full names** are its parts with full names, in the same
scopes. -/
theorem parts_qualified {scope : String} {schema : Json} (hschema : schema.wellFormed = true)
    (hstays : StaysInScope scope schema) :
    parts scope (qualified scope schema) = (parts scope schema).map fun part =>
      (part.1, qualified part.1 part.2) := by
  rw [parts_eq_map, snd_parts_qualified scope scope hschema,
    innerScope_qualified hschema hstays, List.map_map]
  refine List.map_congr_left fun part hpart => ?_
  rw [Function.comp_apply, fst_of_mem_parts hpart]

/-- **A schema with full names is settled.** -/
theorem settled_qualified {scope : String} {schema : Json} (hschema : schema.wellFormed = true)
    (hstays : StaysInScope scope schema) : Settled scope (qualified scope schema) := by
  induction scope, schema using Schema.induction with
  | step scope schema ih =>
      refine .of_parts (fun name hname => ?_) (fun members' hqualified hdefinition => ?_)
        fun part hpart => ?_
      · cases schema with
        | string text =>
            rw [qualified] at hname
            obtain rfl := Json.string.inj hname
            exact qualifyReference_qualifyReference scope text
        | object members =>
            obtain ⟨members', hqualified⟩ := exists_qualified_eq_object scope members
            rw [hqualified] at hname
            contradiction
        | _ => simp [qualified] at hname
      · rw [isDefinition_qualified_iff hschema] at hdefinition
        cases schema with
        | object members =>
            have hnodup := (Json.wellFormed_object_iff.1 hschema).1
            obtain ⟨kind, hkind, hnamed⟩ := isDefinition_object_iff.1 hdefinition
            have hname := textMember?_name_qualified scope hnodup hkind hnamed
            have hspace := member?_namespace_qualified scope hnodup hkind hnamed
            have hdeclared := declaredName_qualified hnodup hdefinition
              (hstays scope members (.here _ _) hdefinition) hqualified
            rw [hqualified] at hname hspace
            rw [hdeclared]
            exact ⟨Json.textMember?_eq_some_iff.1 hname, hspace⟩
        | _ => simp [IsDefinition, Json.textMember?, Json.member?] at hdefinition
      · rw [parts_qualified hschema hstays] at hpart
        obtain ⟨original, horiginal, rfl⟩ := List.mem_map.1 hpart
        exact ih original horiginal
          (Json.wellFormed_of_within hschema (within_of_mem_parts horiginal))
          (hstays.of_mem_parts horiginal)

section Again

variable {scope : String} {schema : Json} (hschema : schema.wellFormed = true)
  (hstays : StaysInScope scope schema)

include hschema hstays

/-- **Full names are given once.** -/
theorem qualified_qualified :
    qualified scope (qualified scope schema) = qualified scope schema :=
  qualified_eq_self (wellFormed_qualified scope schema hschema)
    (settled_qualified hschema hstays)

/-- With full names a schema is the definition that it was before, if it was one. -/
theorem ownDefinition_qualified :
    ownDefinition scope (qualified scope schema) = ownDefinition scope schema := by
  by_cases hdefinition : IsDefinition schema
  · cases schema with
    | object members =>
        have hnodup := (Json.wellFormed_object_iff.1 hschema).1
        have hagain := qualified_qualified hschema hstays
        obtain ⟨members', hqualified⟩ := exists_qualified_eq_object scope members
        have hdeclared :=
          declaredName_qualified hnodup hdefinition
            (hstays scope members (.here _ _) hdefinition) hqualified
        obtain ⟨kind, hkind, hnamed⟩ := isDefinition_object_iff.1 hdefinition
        have hkind' := lookup_type_qualified scope hnodup hkind
        rw [ownDefinition_of_kind scope hkind hnamed]
        rw [hqualified] at hkind' hagain ⊢
        rw [ownDefinition_of_kind scope hkind' hnamed, hdeclared, hagain]
    | _ => simp [IsDefinition, Json.textMember?, Json.member?] at hdefinition
  · rw [ownDefinition_eq_nil hdefinition,
      ownDefinition_eq_nil (mt (isDefinition_qualified_iff hschema).1 hdefinition)]

/-- **With full names a schema makes the definitions that it made before.** -/
theorem definitions_qualified :
    definitions scope (qualified scope schema) = definitions scope schema := by
  induction scope, schema using Schema.induction with
  | step scope schema ih =>
      have hpart : ∀ part ∈ parts scope schema,
          definitions part.1 (qualified part.1 part.2) = definitions part.1 part.2 :=
            fun part hmem =>
        ih part hmem (Json.wellFormed_of_within hschema (within_of_mem_parts hmem))
          (hstays.of_mem_parts hmem)
      rw [definitions_eq, definitions_eq scope schema, ownDefinition_qualified hschema hstays,
        parts_qualified hschema hstays, definitionsOfAll, definitionsOfAll, List.flatMap_map,
        List.flatMap_congr hpart]

end Again

/-- Nothing is missing in a definition or a container with full names, if nothing was missing
before. -/
theorem Complete.qualified {scope kind : String} {members members' : List (String × Json)}
    (hnodup : (Entries.keys members).Nodup)
    (hkind : members.lookup "type" = some (.string kind))
    (hstays : StaysInScope scope (.object members)) (h : Complete scope kind members)
    (hqualified : Schema.qualified scope (.object members) = .object members') :
    Complete scope kind members' where
  named hnamed := by
    rw [← hqualified, textMember?_name_qualified scope hnodup hkind hnamed, Option.isSome_some]
  fullName hnamed := by
    have hdefinition : IsDefinition (.object members) :=
      isDefinition_object_iff.2 ⟨kind, hkind, hnamed⟩
    rw [declaredName_qualified hnodup hdefinition (hstays scope members (.here _ _) hdefinition)
      hqualified]
    exact h.fullName hnamed
  fields hrecord := by
    obtain ⟨fields, hfields, hobjects⟩ := h.fields hrecord
    have hfields' := member?_fields_qualified scope hnodup hkind hrecord hfields
    rw [hqualified, qualifiedFields_eq_map] at hfields'
    refine ⟨_, hfields', ?_⟩
    rw [List.forall_mem_map]
    intro field hfield
    obtain ⟨fieldMembers, rfl, htype⟩ := hobjects field hfield
    exact ⟨_, rfl, by rwa [keys_qualifiedMember]⟩
  part key hkey := by
    rw [qualified_container hkind (isNamedKind_of_partKey? hkey) hkey] at hqualified
    rw [← Json.object.inj hqualified, keys_qualifiedMember]
    exact h.part key hkey

/-- **Nothing is missing in a schema with full names**, if nothing was missing before. -/
theorem WellFormed.qualified {scope : String} {schema : Json}
    (hschema : schema.wellFormed = true) (hstays : StaysInScope scope schema)
    (h : WellFormed scope schema) :
    WellFormed scope (Schema.qualified scope schema) := by
  induction scope, schema using Schema.induction with
  | step scope schema ih =>
      obtain ⟨hcomplete, hparts⟩ := wellFormed_iff.1 h
      refine wellFormed_iff.2 ⟨fun members' kind hqualified hkind' => ?_, fun part hpart => ?_⟩
      · cases schema with
        | object members =>
            have htype := textMember?_type_qualified scope hschema
            have htype' : (Json.object members').textMember? "type" = some kind :=
              Json.textMember?_eq_some_iff.2 hkind'
            rw [hqualified, htype'] at htype
            have hkind : members.lookup "type" = some (.string kind) :=
              Json.textMember?_eq_some_iff.1 htype.symm
            exact (hcomplete members kind rfl hkind).qualified
              (Json.wellFormed_object_iff.1 hschema).1 hkind hstays hqualified
        | _ => simp [Schema.qualified] at hqualified
      · rw [parts_qualified hschema hstays] at hpart
        obtain ⟨original, horiginal, rfl⟩ := List.mem_map.1 hpart
        exact ih original horiginal
          (Json.wellFormed_of_within hschema (within_of_mem_parts horiginal))
          (hstays.of_mem_parts horiginal) (hparts original horiginal)

/-! ## Documents -/

/-- **A document that was parsed can be parsed again**, alone or after itself, if none of its
definitions gives up the namespace around it.  On its own it is parsed to itself with the
registry that it had; in that registry it is taken as it is, and the registry stays as it
was. -/
theorem parse_again {document : Json} (hdocument : document.wellFormed = true)
    (hstays : StaysInScope "" document) {parsed : ParsedSchema}
    (h : parse document = .ok parsed) :
    parse parsed.schema = .ok parsed ∧
      qualifyIn parsed.named "" parsed.schema = (.ok parsed.schema, parsed.named) := by
  obtain ⟨schema, named⟩ := parsed
  have hempty : (Entries.keys ([] : Registry)).Nodup := List.nodup_nil
  rw [parse_eq_ok_iff, qualifyIn_eq_ok_iff hempty (by simp) hdocument, List.nil_append] at h
  obtain ⟨⟨hwell, hconsistent⟩, rfl, rfl⟩ := h
  have hschema := wellFormed_qualified "" document hdocument
  have hwell' := hwell.qualified hdocument hstays
  have hagain := qualified_qualified hdocument hstays
  have hdefinitions := definitions_qualified hdocument hstays
  constructor
  · rw [parse_eq_ok_iff, qualifyIn_eq_ok_iff hempty (by simp) hschema, hagain, hdefinitions,
      List.nil_append]
    exact ⟨⟨hwell', hconsistent⟩, rfl, rfl⟩
  · have hnodup : (Entries.keys (Registry.extend [] (definitions "" document))).Nodup :=
      Entries.keys_nodup_ofPairs _
    have hsubset : Registry.extend [] (definitions "" document) ⊆ definitions "" document :=
      fun _ => Entries.mem_of_mem_ofPairs
    have hentries : ∀ entry ∈ Registry.extend [] (definitions "" document),
        entry.2.wellFormed = true :=
      fun entry hentry => wellFormed_of_mem_definitions hdocument (hsubset hentry)
    rw [qualifyIn_eq_ok_iff hnodup hentries hschema, hagain, hdefinitions]
    refine ⟨⟨hwell', hconsistent.mono ?_⟩, rfl, (Entries.foldl_insert_ofPairs _).symm⟩
    exact List.append_subset.2 ⟨hsubset, List.Subset.refl _⟩

/-- The record with an enum, with itself, and with the enum once more can be parsed again. -/
theorem parse_again_outer :
    ∃ parsed, parse outer = .ok parsed ∧ parsed.schema.textMember? "name" = some "a.Outer" ∧
      parse parsed.schema = .ok parsed ∧
      qualifyIn parsed.named "" parsed.schema = (.ok parsed.schema, parsed.named) := by
  have henum : ∀ members, parts "a" (.object members) = [] →
      Name.isDotted (declaredName "a" members) = true → StaysInScope "a" (.object members) := by
    intro members hparts hdotted
    refine .of_parts (fun members' h _ hundotted => ?_) (by simp [hparts])
    obtain rfl := Json.object.inj h
    simp [hdotted] at hundotted
  have hstays : StaysInScope "" outer := by
    have htexts : ∀ scope text, StaysInScope scope (.string text) :=
      fun scope text => .of_parts (by simp) (by simp [parts])
    refine .of_parts (fun _ _ _ _ => rfl) ?_
    refine List.forall_mem_cons.2 ⟨henum _ rfl rfl,
      List.forall_mem_cons.2 ⟨?_, List.forall_mem_singleton.2 ?_⟩⟩
    · exact .of_parts (by simp) (by simp [parts, htexts])
    · exact henum _ rfl rfl
  have hparse : parse outer = .ok ⟨qualified "" outer,
      [("a.Kind", .object [("type", .string "enum"), ("symbols", .array [.string "X"]),
        ("name", .string "a.Kind")]),
        ("a.Outer", qualified "" outer)]⟩ := rfl
  exact ⟨_, hparse, rfl, parse_again (by decide) hstays hparse⟩

end Schema

end AvroBindings
