import AvroBindings.Proofs.Schema.Qualified
import AvroBindings.Proofs.Schema.Registering

/-!
# Qualification does what it should

Each function of qualification enters the definitions and gives the value that its description
without a registry says, and succeeds exactly if the schema is well formed and the definitions
can be entered.

## Main Definitions

* `Schema.Qualifies` — qualification of a schema meets its description.
* `Schema.Described` — it runs as described, also where it is interrupted.

## Main Statements

* `Schema.described`, `Schema.qualifies` — qualification of every schema does.
* `Schema.qualifyIn_eq_ok_iff` — when qualification in a registry succeeds, and with what.

## Design Notes

**One description for each function.**  The functions call one another, but what is said about
one needs only the descriptions of the schemas at its type positions.  So each has a statement
of its own, with those as a hypothesis, and `Schema.induction` puts them together.
-/

namespace AvroBindings

namespace Schema

open Registering

/-- **Qualification of a schema meets its description**: it enters the definitions of the schema
and gives the schema with full names, if it is well formed. -/
def Qualifies (scope : String) (schema : Json) : Prop :=
  Meets (qualify scope schema) (WellFormed scope schema) (definitions scope schema)
    (qualified scope schema)

/-- **Qualification of a schema runs as described**, also where it is interrupted. -/
def Described (scope : String) (schema : Json) : Prop :=
  Runs (qualify scope schema) (WellFormed scope schema) (definitions scope schema)
    (qualified scope schema)

theorem fullNameOf_eq_ok_iff {scope kind : String} {members : List (String × Json)}
    {fullName : String} :
    fullNameOf scope kind members = .ok fullName ↔
      (((Json.object members).textMember? "name").isSome = true ∧
        Name.isFull (declaredName scope members) = true) ∧
        fullName = declaredName scope members := by
  unfold fullNameOf declaredName
  cases (Json.object members).textMember? "name" with
  | none => simp
  | some name =>
      dsimp only [Option.getD_some]
      split
      next h => simp [h, eq_comm]
      next h => simp [h]

theorem qualifyItems_runs {scope : String} {items : List Json}
    (h : ∀ item ∈ items, Described scope item) :
    Runs (qualifyItems scope items) (∀ item ∈ items, WellFormed scope item)
      (definitionsOfAll (items.map fun item => (scope, item)))
      (qualifiedItems scope items) := by
  induction items with
  | nil => exact (Runs.return []).congr (by simp)
  | cons item rest ih =>
      have hitem := h item List.mem_cons_self
      have hrest := ih fun item hmem => h item (List.mem_cons_of_mem _ hmem)
      refine (hitem.bind fun _ => hrest.map fun items => qualified scope item :: items).congr ?_
      rw [List.forall_mem_cons]

theorem qualifyMember_runs {key scope : String} {members : List (String × Json)} {part : Json}
    (hpart : members.lookup key = some part) (h : Described scope part) :
    Runs (qualifyMember key scope members) (WellFormed scope part) (definitions scope part)
      (qualifiedMember key scope members) := by
  induction members with
  | nil => simp at hpart
  | cons member rest ih =>
      obtain ⟨k, v⟩ := member
      rw [qualifyMember, qualifiedMember]
      by_cases hk : k = key
      · subst hk
        obtain rfl : v = part := by simpa using hpart
        rw [if_pos rfl, if_pos rfl]
        exact h.map fun v => (k, v) :: rest
      · rw [if_neg hk, if_neg hk]
        rw [List.lookup_cons, beq_eq_false_iff_ne.2 (Ne.symm hk)] at hpart
        exact (ih hpart).map fun members => (k, v) :: members

theorem qualifyFields_runs {scope : String} {fields : List Json}
    (h : ∀ ty ∈ fieldTypes fields, Described scope ty) :
    Runs (qualifyFields scope fields)
      ((∀ field ∈ fields, ∃ members, field = .object members ∧ "type" ∈ Entries.keys members) ∧
        ∀ ty ∈ fieldTypes fields, WellFormed scope ty)
      (definitionsOfAll ((fieldTypes fields).map fun ty => (scope, ty)))
      (qualifiedFields scope fields) := by
  induction fields with
  | nil => exact (Runs.return []).congr (by simp [fieldTypes])
  | cons field rest ih =>
      cases field with
      | object members =>
          rw [qualifyFields, qualifiedFields]
          cases hlookup : members.lookup "type" with
          | none =>
              refine .refusal_bind _ _ (fun hsound => ?_) _
              obtain ⟨fieldMembers, heq, hkey⟩ := hsound.1 _ List.mem_cons_self
              obtain rfl := Json.object.inj heq
              exact Entries.lookup_eq_none_iff.1 hlookup hkey
          | some ty =>
              have htypes : fieldTypes (.object members :: rest) = ty :: fieldTypes rest :=
                List.filterMap_cons_some hlookup
              rw [htypes] at h ⊢
              rw [List.forall_mem_cons] at h
              rw [if_neg (by simp)]
              refine ((qualifyMember_runs hlookup h.1).bind fun _ => (ih h.2).map fun fields =>
                .object (qualifiedMember "type" scope members) :: fields).congr ?_
              have hfield : ∃ fieldMembers, Json.object members = .object fieldMembers ∧
                  "type" ∈ Entries.keys fieldMembers :=
                    ⟨members, rfl, Entries.mem_keys_of_lookup hlookup⟩
              rw [List.forall_mem_cons, List.forall_mem_cons]
              constructor
              · exact fun ⟨hty, hrest, htypes⟩ => ⟨⟨hfield, hrest⟩, hty, htypes⟩
              · exact fun ⟨⟨_, hrest⟩, hty, htypes⟩ => ⟨hty, hrest, htypes⟩
      | _ =>
          rw [qualifyFields]
          · exact .refusal _ (by simp) _
          · simp

theorem qualifyFieldsMember_runs {scope : String} {members : List (String × Json)}
    {fields : List Json} (hfields : members.lookup "fields" = some (.array fields))
    (h : ∀ ty ∈ fieldTypes fields, Described scope ty) :
    Runs (qualifyFieldsMember scope members)
      ((∀ field ∈ fields, ∃ members, field = .object members ∧ "type" ∈ Entries.keys members) ∧
        ∀ ty ∈ fieldTypes fields, WellFormed scope ty)
      (definitionsOfAll ((fieldTypes fields).map fun ty => (scope, ty)))
      (qualifiedFieldsMember scope members) := by
  induction members with
  | nil => simp at hfields
  | cons member rest ih =>
      obtain ⟨k, v⟩ := member
      by_cases hk : k = "fields"
      · subst hk
        obtain rfl : v = .array fields := by simpa using hfields
        rw [qualifyFieldsMember, qualifiedFieldsMember, if_pos rfl, if_pos rfl]
        exact (qualifyFields_runs h).map fun fields => ("fields", .array fields) :: rest
      · rw [List.lookup_cons, beq_eq_false_iff_ne.2 (Ne.symm hk)] at hfields
        cases v with
        | array others =>
            rw [qualifyFieldsMember, qualifiedFieldsMember, if_neg hk, if_neg hk]
            exact (ih hfields).map fun members => (k, .array others) :: members
        | _ =>
            rw [qualifyFieldsMember, qualifiedFieldsMember]
            · exact (ih hfields).map fun members => (k, _) :: members
            · simp
            · simp

/-! ## Schemas -/

section Objects

variable {scope kind : String} {members : List (String × Json)}

/-- Of an object of a kind, it is the members of this kind that are asked for. -/
theorem complete_object_iff (hkind : members.lookup "type" = some (.string kind)) :
    (∀ members' kind', Json.object members = .object members' →
      members'.lookup "type" = some (.string kind') →
      Complete scope kind' members') ↔ Complete scope kind members := by
  refine ⟨fun h => h members kind rfl hkind, ?_⟩
  rintro h members' kind' heq hkind'
  obtain rfl := Json.object.inj heq
  obtain rfl := Json.string.inj (Option.some.inj (hkind.symm.trans hkind'))
  exact h

/-- What may be missing in a definition is its name, or a field of it. -/
theorem complete_iff_of_isNamedKind (hnamed : isNamedKind kind = true) :
    Complete scope kind members ↔
      (((Json.object members).textMember? "name").isSome = true ∧
        Name.isFull (declaredName scope members) = true) ∧
        (isRecordKind kind = true → ∃ fields, members.lookup "fields" = some (.array fields) ∧
          ∀ field ∈ fields, ∃ fieldMembers, field = .object fieldMembers ∧
          "type" ∈ Entries.keys fieldMembers) := by
  constructor
  · exact fun h => ⟨⟨h.named hnamed, h.fullName hnamed⟩, h.fields⟩
  · rintro ⟨⟨hname, hfull⟩, hfields⟩
    exact ⟨fun _ => hname, fun _ => hfull, hfields,
      fun key hkey => by simp [partKey?_of_isNamedKind hnamed] at hkey⟩

/-- What may be missing in another object is its part. -/
theorem complete_iff_of_isNamedKind_eq_false (hnamed : isNamedKind kind = false) :
    Complete scope kind members ↔ ∀ key, partKey? kind = some key →
      key ∈ Entries.keys members := by
  refine ⟨fun h => h.part, fun hpart => ⟨fun h => ?_, fun h => ?_, fun h => ?_, hpart⟩⟩
  · simp [hnamed] at h
  · simp [hnamed] at h
  · simp [isRecordKind_eq_false hnamed] at h

/-- An object that states a kind is well formed exactly if nothing is missing in it and its
parts are well formed. -/
theorem wellFormed_kind_iff (hkind : members.lookup "type" = some (.string kind)) :
    WellFormed scope (.object members) ↔
      Complete scope kind members ∧
        ∀ part ∈ parts scope (.object members), WellFormed part.1 part.2 := by
  rw [wellFormed_iff, complete_object_iff hkind]

theorem fullNameOf_runs (scope kind : String) (members : List (String × Json)) :
    Runs (liftM (fullNameOf scope kind members))
      (((Json.object members).textMember? "name").isSome = true ∧
        Name.isFull (declaredName scope members) = true) []
      (declaredName scope members) :=
  .lift fun _ => fullNameOf_eq_ok_iff

theorem described_record (hkind : members.lookup "type" = some (.string kind))
    (hrecord : isRecordKind kind = true)
    (ih : ∀ part ∈ parts scope (.object members), Described part.1 part.2) :
    Described scope (.object members) := by
  have hnamed := isNamedKind_of_isRecordKind hrecord
  unfold Described
  rw [definitions_eq, ownDefinition, qualify, qualified, hkind]
  simp only [hnamed, hrecord, if_true]
  by_cases hfields : ∃ fields, members.lookup "fields" = some (.array fields)
  · obtain ⟨fields, hfields⟩ := hfields
    have hparts : parts scope (.object members) =
        (fieldTypes fields).map fun ty => (Name.space (declaredName scope members), ty) := by
      simp [parts, hkind, hrecord, hfields]
    have hitems : ((Json.member? "fields" (.object members)).bind Json.items?).isNone =
        false := by
      simp [Json.member?, Json.items?, hfields]
    have htypes : ∀ ty ∈ fieldTypes fields,
        Described (Name.space (declaredName scope members)) ty := by
      intro ty hty
      exact ih (_, ty) (hparts ▸ List.mem_map_of_mem hty)
    simp only [hitems, Bool.false_eq_true, if_false]
    rw [hparts]
    refine ((fullNameOf_runs scope kind members).bind fun hname =>
      (qualifyFieldsMember_runs hfields htypes).bind fun _ => .register hname.2 _).congr ?_
    rw [wellFormed_kind_iff hkind, hparts, List.forall_mem_map,
      complete_iff_of_isNamedKind hnamed]
    constructor
    · rintro ⟨hname, ⟨hobjects, hwell⟩, -⟩
      exact ⟨⟨hname, fun _ => ⟨fields, hfields, hobjects⟩⟩, hwell⟩
    · rintro ⟨⟨hname, hrecordFields⟩, hwell⟩
      obtain ⟨fields', hfields', hobjects⟩ := hrecordFields hrecord
      obtain rfl := Json.array.inj (Option.some.inj (hfields.symm.trans hfields'))
      exact ⟨hname, ⟨hobjects, hwell⟩, trivial⟩
  · -- Without an array of fields qualification fails, if not at the name then after it.
    have hitems : ((Json.member? "fields" (.object members)).bind Json.items?).isNone =
        true := by
      cases hlookup : members.lookup "fields" with
      | none => simp [Json.member?, hlookup]
      | some x =>
          cases x with
          | array fields => exact absurd ⟨fields, hlookup⟩ hfields
          | _ => simp [Json.member?, Json.items?, hlookup]
    simp only [hitems, if_true]
    refine ((fullNameOf_runs scope kind members).bind fun _ =>
      .refusal_bind _ _ not_false _).congr ?_
    rw [wellFormed_kind_iff hkind]
    constructor
    · exact fun h => h.2.elim
    · rintro ⟨hcomplete, -⟩
      obtain ⟨fields, hlookup, -⟩ := hcomplete.fields hrecord
      exact absurd ⟨fields, hlookup⟩ hfields

theorem described_named (hkind : members.lookup "type" = some (.string kind))
    (hnamed : isNamedKind kind = true) (hrecord : isRecordKind kind = false) :
    Described scope (.object members) := by
  have hpart := partKey?_of_isNamedKind hnamed
  have hparts : parts scope (.object members) = [] := by
    simp [parts, hkind, hrecord, hpart]
  unfold Described
  rw [definitions_eq, ownDefinition, qualify, qualified, hkind, hparts]
  simp only [hnamed, hrecord, if_true, Bool.false_eq_true, if_false]
  refine ((fullNameOf_runs scope kind members).bind fun hname => .register hname.2 _).congr ?_
  rw [wellFormed_kind_iff hkind, hparts, complete_iff_of_isNamedKind hnamed]
  simp [hrecord]

theorem described_container (hkind : members.lookup "type" = some (.string kind))
    (hnamed : isNamedKind kind = false) {key : String} (hkey : partKey? kind = some key)
    (ih : ∀ part ∈ parts scope (.object members), Described part.1 part.2) :
    Described scope (.object members) := by
  have hrecord := isRecordKind_eq_false hnamed
  unfold Described
  rw [definitions_eq, ownDefinition, qualify, qualified, hkind]
  simp only [hnamed, hrecord, hkey, Bool.false_eq_true, if_false]
  cases hlookup : members.lookup key with
  | none =>
      refine .refusal_bind _ _ (fun hwell => ?_) _
      have hcomplete := ((wellFormed_kind_iff hkind).1 hwell).1
      exact Entries.lookup_eq_none_iff.1 hlookup (hcomplete.part key hkey)
  | some part =>
      have hparts : parts scope (.object members) = [(scope, part)] := by
        simp [parts, hkind, hrecord, hkey, hlookup]
      rw [hparts] at ih ⊢
      rw [if_neg (by simp)]
      rw [definitionsOfAll, List.flatMap_singleton, List.append_nil]
      refine
        ((qualifyMember_runs hlookup (ih (scope, part) (by simp))).map Json.object).congr ?_
      rw [wellFormed_kind_iff hkind, hparts, List.forall_mem_singleton, iff_and_self]
      refine fun _ => (complete_iff_of_isNamedKind_eq_false hnamed).2 fun other hother => ?_
      obtain rfl : key = other := Option.some.inj (hkey.symm.trans hother)
      exact Entries.mem_keys_of_lookup hlookup

/-- An object whose type is an object or an array wraps the schema that this is. -/
theorem described_wrapper {inner : Json} (hinner : members.lookup "type" = some inner)
    (hcompound : (∃ inside, inner = .object inside) ∨ ∃ items, inner = .array items)
    (h : Described scope inner) :
    Described scope (.object members) := by
  have hparts : parts scope (.object members) = [(scope, inner)] := by
    rcases hcompound with ⟨inside, rfl⟩ | ⟨items, rfl⟩ <;> simp [parts, hinner]
  have hwell : WellFormed scope inner ↔ WellFormed scope (.object members) := by
    refine Iff.trans ?_ wellFormed_iff.symm
    rw [hparts, List.forall_mem_singleton, iff_and_self]
    rintro - members' kind heq hkind
    obtain rfl := Json.object.inj heq
    rcases hcompound with ⟨inside, rfl⟩ | ⟨items, rfl⟩ <;> simp [hinner] at hkind
  have hmeets := ((qualifyMember_runs hinner h).map Json.object).congr hwell
  unfold Described
  rw [definitions_eq, hparts, definitionsOfAll, List.flatMap_singleton, ownDefinition, qualify,
    qualified, hinner]
  rcases hcompound with ⟨inside, rfl⟩ | ⟨items, rfl⟩
  · rwa [List.append_nil]
  · rwa [List.append_nil]

/-- A schema without parts that defines nothing is taken as it is read. -/
theorem described_leaf {schema : Json}
    (hqualify : qualify scope schema = pure (qualified scope schema))
    (hparts : parts scope schema = []) (hown : ownDefinition scope schema = [])
    (hcomplete : ∀ members kind, schema = .object members →
      members.lookup "type" = some (.string kind) → Complete scope kind members) :
    Described scope schema := by
  have hwell : WellFormed scope schema := wellFormed_iff.2 ⟨hcomplete, by simp [hparts]⟩
  unfold Described
  rw [definitions_eq, hparts, hown, hqualify]
  exact (Runs.return _).congr (iff_of_true trivial hwell)

theorem described_unknown (hkind : members.lookup "type" = some (.string kind))
    (hnamed : isNamedKind kind = false) (hpart : partKey? kind = none) :
    Described scope (.object members) := by
  have hrecord := isRecordKind_eq_false hnamed
  refine described_leaf ?_ ?_ ?_ ?_
  · simp [qualify, qualified, hkind, hnamed, hrecord, hpart]
  · simp [parts, hkind, hrecord, hpart]
  · simp [ownDefinition, hkind, hnamed]
  · rintro _ kind' ⟨⟩ hkind'
    obtain rfl := Json.string.inj (Option.some.inj (hkind.symm.trans hkind'))
    exact (complete_iff_of_isNamedKind_eq_false hnamed).2 (by simp [hpart])

/-- An object whose type is neither a text nor a schema is no schema that qualification looks
into. -/
theorem described_untyped (hkind : ∀ kind, members.lookup "type" ≠ some (.string kind))
    (hobject : ∀ inside, members.lookup "type" ≠ some (.object inside))
    (harray : ∀ items, members.lookup "type" ≠ some (.array items)) :
    Described scope (.object members) := by
  refine described_leaf ?_ ?_ ?_ ?_
  · rw [qualify, qualified]
    split <;> simp_all
  · rw [parts]
    split <;> simp_all
  · rw [ownDefinition]
    split <;> simp_all
  · rintro _ kind ⟨⟩ h
    exact absurd h (hkind kind)

end Objects

/-- **Qualification runs as described.** -/
theorem described (scope : String) (schema : Json) : Described scope schema := by
  induction scope, schema using Schema.induction with
  | step scope schema ih =>
      cases schema with
      | array items =>
          have hitems : ∀ item ∈ items, Described scope item :=
            fun item hitem => ih (scope, item) (List.mem_map_of_mem hitem)
          have hwell : (∀ item ∈ items, WellFormed scope item) ↔
              WellFormed scope (.array items) := by
            refine Iff.trans ?_ wellFormed_iff.symm
            simp [parts]
          unfold Described
          rw [definitions_eq, ownDefinition, List.append_nil, parts]
          · exact ((qualifyItems_runs hitems).map Json.array).congr hwell
          · simp
      | object members =>
          cases hlookup : members.lookup "type" with
          | none =>
              exact described_untyped (by simp [hlookup]) (by simp [hlookup])
                (by simp [hlookup])
          | some inner =>
              cases inner with
              | string kind =>
                  cases hrecord : isRecordKind kind with
                  | true => exact described_record hlookup hrecord ih
                  | false =>
                      cases hnamed : isNamedKind kind with
                      | true => exact described_named hlookup hnamed hrecord
                      | false =>
                          cases hkey : partKey? kind with
                          | none => exact described_unknown hlookup hnamed hkey
                          | some key => exact described_container hlookup hnamed hkey ih
              | object inside =>
                  have hmem : (scope, .object inside) ∈ parts scope (.object members) := by
                    simp [parts, hlookup]
                  exact described_wrapper hlookup (.inl ⟨_, rfl⟩) (ih _ hmem)
              | array items =>
                  have hmem : (scope, .array items) ∈ parts scope (.object members) := by
                    simp [parts, hlookup]
                  exact described_wrapper hlookup (.inr ⟨_, rfl⟩) (ih _ hmem)
              | _ =>
                  exact described_untyped (by simp [hlookup]) (by simp [hlookup])
                    (by simp [hlookup])
      | _ =>
          exact described_leaf (by simp [qualify, qualified]) (by simp [parts])
            (by simp [ownDefinition]) (by simp)

/-- **Qualification meets its description.** -/
theorem qualifies (scope : String) (schema : Json) : Qualifies scope schema :=
  (described scope schema).meets

/-- **Qualification does what it should.**  In a registry it succeeds exactly if the schema is
well formed and its definitions agree with those of the registry and with one another.  It then
gives the schema with full names, whatever was in the registry, and the registry is extended by
the definitions in order. -/
theorem qualifyIn_eq_ok_iff {registry : Registry} (hnodup : (Entries.keys registry).Nodup)
    (hregistry : ∀ entry ∈ registry, entry.2.wellFormed = true) {scope : String} {schema : Json}
    (hschema : schema.wellFormed = true) {q : Json} {registry' : Registry} :
    qualifyIn registry scope schema = (.ok q, registry') ↔
      (WellFormed scope schema ∧ Registry.Consistent (registry ++ definitions scope schema)) ∧
        q = qualified scope schema ∧
        registry' = Registry.extend registry (definitions scope schema) := by
  have hdefinitions : ∀ definition ∈ definitions scope schema, definition.2.wellFormed = true :=
    fun _ hmem => wellFormed_of_mem_definitions hschema hmem
  have hmeets := qualifies scope schema registry q registry'
  rw [Registry.enterAll_eq_some_iff hnodup hregistry hdefinitions] at hmeets
  refine hmeets.trans ?_
  constructor
  · exact fun ⟨hwell, ⟨hconsistent, hextend⟩, hq⟩ => ⟨⟨hwell, hconsistent⟩, hq, hextend⟩
  · exact fun ⟨⟨hwell, hconsistent⟩, hq, hextend⟩ => ⟨hwell, ⟨hconsistent, hextend⟩, hq⟩

/-- Whether qualification succeeds. -/
theorem isOk_qualifyIn_iff {registry : Registry} (hnodup : (Entries.keys registry).Nodup)
    (hregistry : ∀ entry ∈ registry, entry.2.wellFormed = true) {scope : String} {schema : Json}
    (hschema : schema.wellFormed = true) :
    (qualifyIn registry scope schema).1.isOk = true ↔
      WellFormed scope schema ∧ Registry.Consistent (registry ++ definitions scope schema) := by
  have hiff := @qualifyIn_eq_ok_iff registry hnodup hregistry scope schema hschema
  constructor
  · intro hok
    cases hrun : qualifyIn registry scope schema with
    | mk result registry' =>
        rw [hrun] at hok
        cases result with
        | error => simp [Except.isOk, Except.toBool] at hok
        | ok q => exact (hiff.1 hrun).1
  · intro h
    rw [hiff.2 ⟨h, rfl, rfl⟩]
    rfl

/-- A document that is parsed is one that is qualified without definitions around it. -/
theorem parse_eq_ok_iff {document : Json} {parsed : ParsedSchema} :
    parse document = .ok parsed ↔
      qualifyIn [] "" document = (.ok parsed.schema, parsed.named) := by
  obtain ⟨schema, named⟩ := parsed
  unfold parse
  rcases qualifyIn [] "" document with ⟨_ | schema', named'⟩ <;> simp

/-- A record in a namespace with an enum, with itself, and with the enum defined once more in
another spelling. -/
def outer : Json :=
  .object [("type", .string "record"), ("name", .string "Outer"), ("namespace", .string "a"),
    ("fields", .array [
      .object [("name", .string "kind"),
        ("type", .object [("type", .string "enum"), ("name", .string "Kind"),
          ("symbols", .array [.string "X"])])],
      .object [("name", .string "next"), ("type", .array [.string "null", .string "Outer"])],
      .object [("name", .string "again"),
        ("type", .object [("type", .string "enum"), ("symbols", .array [.string "X"]),
          ("name", .string "a.Kind")])]])]

/-- In a registry that has the enum already, the record is qualified.  The enum keeps its place
and gets its last spelling, and the record goes behind it. -/
theorem qualifyIn_outer :
    let registry : Registry :=
      [("a.Kind", .object [("name", .string "a.Kind"), ("type", .string "enum"),
        ("symbols", .array [.string "X"])])]
    let registry' : Registry :=
      [("a.Kind", .object [("type", .string "enum"), ("symbols", .array [.string "X"]),
        ("name", .string "a.Kind")]),
        ("a.Outer", qualified "" outer)]
    (Entries.keys registry).Nodup ∧ (∀ entry ∈ registry, entry.2.wellFormed = true) ∧
      outer.wellFormed = true ∧
      qualifyIn registry "" outer = (.ok (qualified "" outer), registry') ∧
      (WellFormed "" outer ∧ Registry.Consistent (registry ++ definitions "" outer)) ∧
      registry' = Registry.extend registry (definitions "" outer) := by
  intro registry registry'
  have hnodup : (Entries.keys registry).Nodup := by decide
  have hregistry : ∀ entry ∈ registry, entry.2.wellFormed = true :=
    List.forall_mem_singleton.2 (by decide)
  have hschema : outer.wellFormed = true := by decide
  have hqualify : qualifyIn registry "" outer = (.ok (qualified "" outer), registry') := rfl
  obtain ⟨hsound, -, hextend⟩ := (qualifyIn_eq_ok_iff hnodup hregistry hschema).1 hqualify
  exact ⟨hnodup, hregistry, hschema, hqualify, hsound, hextend⟩

end Schema

end AvroBindings
