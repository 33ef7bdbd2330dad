import AvroBindings.Proofs.Schema.Members

/-!
# Definitions in the place of references

A schema with one reference replaced by the definition that it names: what the two define, and
how they differ.

## Main Definitions

* `Schema.StatesName` — a record or an enum has one full name, whatever the scope.
* `Schema.Inlines` — a schema has a definition where another has a reference to it.
* `Schema.Respelled` — two definitions are one, but for such a replacement inside.

## Main Statements

* `Schema.exists_inlines_iff` — a definition can be put wherever there is a reference to it.
* `Schema.Inlines.wellFormed` — the tree stays well formed.
* `Schema.Inlines.putIn` — the schema makes the definitions that it made, and those of the
  definition where the reference stood.

## Design Notes

**Scopes.**  A definition is read in the scope of the reference that it replaces.  Its full name
is all that qualification takes from there: the names inside it are read in the namespace of
that full name.
-/

namespace AvroBindings.Schema

/-! ## Definitions that state their names -/

/-- **A definition states its full name**: it is a record or an enum, and has this full name in
every scope. -/
structure StatesName (name : String) (definition : Json) : Prop where
  kind : ∃ kind ∈ ["record", "error", "enum"], definition.textMember? "type" = some kind
  fullName : ∀ scope members, definition = .object members → declaredName scope members = name

namespace StatesName

variable {name : String} {definition : Json}

/-- A definition with a dot in its name states its full name. -/
theorem of_isDotted {kind : String} (hkind : definition.textMember? "type" = some kind)
    (hmem : kind ∈ ["record", "error", "enum"])
    (hname : definition.textMember? "name" = some name) (hdotted : Name.isDotted name = true) :
    StatesName name definition := by
  refine ⟨⟨kind, hmem, hkind⟩, ?_⟩
  rintro scope members rfl
  simp [declaredName, hname, Name.qualify, hdotted]

/-- What a definition that states its name is. -/
theorem exists_members (h : StatesName name definition) :
    ∃ kind members, definition = .object members ∧ kind ∈ ["record", "error", "enum"] ∧
      isNamedKind kind = true ∧ members.lookup "type" = some (.string kind) ∧
      ∀ scope, declaredName scope members = name := by
  have hnamed : ∀ kind ∈ ["record", "error", "enum"], isNamedKind kind = true := by decide
  obtain ⟨kind, hmem, hkind⟩ := h.kind
  rw [Json.textMember?_eq_some_iff] at hkind
  cases definition with
  | object members =>
      exact ⟨kind, members, rfl, hmem, hnamed kind hmem, hkind,
        fun scope => h.fullName scope members rfl⟩
  | _ => contradiction

/-- With full names it is the same in every scope. -/
theorem qualified_eq (h : StatesName name definition) (scope scope' : String) :
    qualified scope definition = qualified scope' definition := by
  obtain ⟨kind, members, rfl, -, hnamed, hkind, hname⟩ := h.exists_members
  cases hrecord : isRecordKind kind with
  | true => rw [qualified_record hkind hrecord, qualified_record hkind hrecord, hname, hname]
  | false =>
      rw [qualified_named hkind hnamed hrecord, qualified_named hkind hnamed hrecord,
        hname, hname]

/-- It makes the same definitions in every scope. -/
theorem definitions_eq (h : StatesName name definition) (scope scope' : String) :
    definitions scope definition = definitions scope' definition := by
  have hqualified := h.qualified_eq scope scope'
  obtain ⟨kind, members, rfl, -, hnamed, hkind, hname⟩ := h.exists_members
  have hparts : parts scope (.object members) = parts scope' (.object members) := by
    simp only [parts, hkind, hname, partKey?_of_isNamedKind hnamed, Option.bind_none]
  rw [Schema.definitions_eq, Schema.definitions_eq, hparts, ownDefinition, ownDefinition,
    hqualified, hname, hname]

/-- With full names it has this name. -/
theorem textMember?_name (h : StatesName name definition) (hwell : definition.wellFormed = true)
    (scope : String) :
    (qualified scope definition).textMember? "name" = some name := by
  obtain ⟨kind, members, rfl, -, hnamed, hkind, hname⟩ := h.exists_members
  rw [textMember?_name_qualified scope (Json.wellFormed_object_iff.1 hwell).1 hkind hnamed,
    hname]

end StatesName

/-! ## Inlining -/

/-- The members of a record with another type for the field that stands between two lists of
fields. -/
def retype (before : List Json) (fieldMembers : List (String × Json)) (after : List Json)
    (type : Json) (members : List (String × Json)) : List (String × Json) :=
  Entries.insert "fields"
    (.array (before ++ .object (Entries.insert "type" type fieldMembers) :: after)) members

/-- A well-formed record stays one with another well-formed type for a field. -/
theorem wellFormed_retype {before after : List Json}
    {fieldMembers members : List (String × Json)} {y : Json}
    (hwell : (Json.object members).wellFormed = true)
    (hfields : members.lookup "fields" =
      some (.array (before ++ .object fieldMembers :: after)))
    (hy : y.wellFormed = true) :
    (Json.object (retype before fieldMembers after y members)).wellFormed = true := by
  have hitems := Json.wellFormed_array_middle_iff.1 (Json.wellFormed_of_lookup hwell hfields)
  refine Json.wellFormed_insert hwell (Json.wellFormed_array_middle_iff.2 ?_)
  exact ⟨hitems.1, Json.wellFormed_insert hitems.2.1 hy, hitems.2.2⟩

/-- **A schema has a definition where another has a reference to it**: the one is the other,
read in a scope, with one reference of this name at a type position replaced. -/
inductive Inlines (name : String) (definition : Json) : String → Json → Json → Prop
  | here {scope text : String} (reference : qualifyReference scope text = name) :
      Inlines name definition scope (.string text) definition
  | item {scope : String} {x y : Json} (before after : List Json)
      (inside : Inlines name definition scope x y) :
      Inlines name definition scope (.array (before ++ x :: after))
        (.array (before ++ y :: after))
  | inner {scope key : String} {members : List (String × Json)} {x y : Json}
      (only : innerKey? members = some key) (found : members.lookup key = some x)
      (inside : Inlines name definition scope x y) :
      Inlines name definition scope (.object members) (.object (Entries.insert key y members))
  | field {scope kind : String} {members : List (String × Json)} {x y : Json}
      (before : List Json) (fieldMembers : List (String × Json)) (after : List Json)
      (stated : members.lookup "type" = some (.string kind)) (record : isRecordKind kind = true)
      (fields : members.lookup "fields" =
        some (.array (before ++ .object fieldMembers :: after)))
      (found : fieldMembers.lookup "type" = some x)
      (inside : Inlines name definition (Name.space (declaredName scope members)) x y) :
      Inlines name definition scope (.object members)
        (.object (retype before fieldMembers after y members))

section Inlines

variable {name scope : String} {definition schema schema' : Json}

/-- An object or an array stays one where something inside it is replaced. -/
theorem Inlines.compound (h : Inlines name definition scope schema schema')
    (hcompound : (∃ members, schema = .object members) ∨ ∃ items, schema = .array items) :
    (∃ members, schema' = .object members) ∨ ∃ items, schema' = .array items := by
  cases h with
  | here => simp at hcompound
  | item => exact .inr ⟨_, rfl⟩
  | inner => exact .inl ⟨_, rfl⟩
  | field => exact .inl ⟨_, rfl⟩

/-- The part of an object that is no record stays its only part where something inside it is
replaced. -/
theorem Inlines.innerKey?_insert {key : String} {members : List (String × Json)} {x y : Json}
    (h : Inlines name definition scope x y) (hkey : innerKey? members = some key)
    (hfound : members.lookup key = some x) :
    innerKey? (Entries.insert key y members) = some key :=
  Schema.innerKey?_insert hkey hfound h.compound

/-- **A well-formed tree stays one** where a well-formed definition is put into it. -/
theorem Inlines.wellFormed (h : Inlines name definition scope schema schema')
    (hschema : schema.wellFormed = true) (hdefinition : definition.wellFormed = true) :
    schema'.wellFormed = true := by
  induction h with
  | here => exact hdefinition
  | item before after _ ih =>
      rw [Json.wellFormed_array_middle_iff] at hschema ⊢
      exact ⟨hschema.1, ih hschema.2.1, hschema.2.2⟩
  | inner _ hfound _ ih =>
      exact Json.wellFormed_insert hschema (ih (Json.wellFormed_of_lookup hschema hfound))
  | field _ _ _ _ _ hfields hfound _ ih =>
      have hitems :=
        Json.wellFormed_array_middle_iff.1 (Json.wellFormed_of_lookup hschema hfields)
      exact wellFormed_retype hschema hfields (ih (Json.wellFormed_of_lookup hitems.2.1 hfound))

/-! ## Definitions -/

/-- **Two definitions are one, but for a replacement inside**: they have one name, and the
schema of the second is that of the first with a reference replaced, both with full names. -/
inductive Respelled (name : String) (definition : Json) : String × Json → String × Json → Prop
  | refl (entry : String × Json) : Respelled name definition entry entry
  | inside {scope full : String} {schema schema' : Json}
      (inlines : Inlines name definition scope schema schema')
      (wellFormed : schema.wellFormed = true)
      (own : ownDefinition scope schema = [(full, qualified scope schema)]) :
      Respelled name definition (full, qualified scope schema) (full, qualified scope schema')

theorem Respelled.fst_eq {entry other : String × Json}
    (h : Respelled name definition entry other) :
    entry.1 = other.1 := by
  cases h <;> rfl

/-- **Definitions are put in among others**, of which those behind are respelled. -/
def PutIn (name : String) (definition : Json) (entries entries' : List (String × Json)) :
    Prop :=
  ∃ before after after',
    entries = before ++ after ∧ entries' = before ++ definitions "" definition ++ after' ∧
    List.Forall₂ (Respelled name definition) after after'

theorem respelled_refl (entries : List (String × Json)) :
    List.Forall₂ (Respelled name definition) entries entries :=
  List.forall₂_same.2 fun entry _ => .refl entry

/-- What stands before the parts and behind them changes nothing. -/
theorem PutIn.around {entries entries' own own' : List (String × Json)}
    (h : PutIn name definition entries entries') (first : List (String × Json))
    (hown : List.Forall₂ (Respelled name definition) own own') :
    PutIn name definition (first ++ entries ++ own) (first ++ entries' ++ own') := by
  obtain ⟨before, after, after', rfl, rfl, hafter⟩ := h
  exact ⟨first ++ before, after ++ own, after' ++ own', by simp, by simp,
    List.rel_append hafter hown⟩

/-- A schema of which one part is replaced makes the definitions that it made, but for those of
the part. -/
theorem PutIn.of_parts {part part' : String × Json} (before after : List (String × Json))
    (hparts : parts scope schema = before ++ part :: after)
    (hparts' : parts scope schema' = before ++ part' :: after)
    (hpart : PutIn name definition (definitions part.1 part.2) (definitions part'.1 part'.2))
    (hown : List.Forall₂ (Respelled name definition) (ownDefinition scope schema)
      (ownDefinition scope schema')) :
    PutIn name definition (definitions scope schema) (definitions scope schema') := by
  have hrest :=
    hpart.around (definitionsOfAll before)
      (List.rel_append (respelled_refl (definitionsOfAll after)) hown)
  rw [definitions_eq, definitions_eq scope schema', hparts, hparts']
  simpa [definitionsOfAll] using hrest

section Retype

variable {before after : List Json} {fieldMembers members : List (String × Json)} {y : Json}

theorem lookup_retype_of_ne {key : String} (hne : key ≠ "fields") :
    (retype before fieldMembers after y members).lookup key = members.lookup key := by
  rw [retype, Entries.lookup_insert, if_neg hne]

theorem lookup_fields_retype :
    (retype before fieldMembers after y members).lookup "fields" =
      some (.array (before ++ .object (Entries.insert "type" y fieldMembers) :: after)) := by
  rw [retype, Entries.lookup_insert_self]

/-- A record keeps its full name where the type of a field is replaced. -/
theorem declaredName_retype (scope : String) :
    declaredName scope (retype before fieldMembers after y members) =
      declaredName scope members := by
  have hfields : ("name" : String) ≠ "fields" ∧ ("namespace" : String) ≠ "fields" := by decide
  simp only [declaredName, Json.textMember?, Json.member?, lookup_retype_of_ne hfields.1,
    lookup_retype_of_ne hfields.2]

section Qualified

variable {scope kind : String} (hnodup : (Entries.keys members).Nodup)
  (hkind : members.lookup "type" = some (.string kind)) (hrecord : isRecordKind kind = true)

include hnodup hkind hrecord

/-- Where the type of a field is replaced, a record has its other fields as they were. -/
theorem member?_fields_qualified_retype :
    (qualified scope (.object (retype before fieldMembers after y members))).member? "fields" =
      some (.array (before.map (qualifiedField (Name.space (declaredName scope members))) ++
        .object (qualifiedMember "type" (Name.space (declaredName scope members))
          (Entries.insert "type" y fieldMembers)) ::
          after.map (qualifiedField (Name.space (declaredName scope members))))) := by
  have hkind' : (retype before fieldMembers after y members).lookup "type" =
      some (.string kind) := by
    rw [lookup_retype_of_ne (by decide), hkind]
  have hnodup' : (Entries.keys (retype before fieldMembers after y members)).Nodup :=
    Entries.keys_nodup_insert hnodup
  rw [member?_fields_qualified scope hnodup' hkind' hrecord lookup_fields_retype,
    declaredName_retype, qualifiedFields_eq_map, List.map_append, List.map_cons, qualifiedField]

/-- Where the type of a field is replaced, a record has its other members as they were. -/
theorem member?_qualified_retype {key : String} (hkey : key ≠ "fields") :
    (qualified scope (.object (retype before fieldMembers after y members))).member? key =
      (qualified scope (.object members)).member? key := by
  have hkind' : (retype before fieldMembers after y members).lookup "type" =
      some (.string kind) := by
    rw [lookup_retype_of_ne (by decide), hkind]
  have hnodup' : (Entries.keys (retype before fieldMembers after y members)).Nodup :=
    Entries.keys_nodup_insert hnodup
  exact member?_qualified_congr hnodup hnodup' hkind hkind'
    (isNamedKind_of_isRecordKind hrecord) (declaredName_retype scope) fun _ _ =>
      lookup_retype_of_ne hkey

end Qualified

end Retype

theorem TypePosition.exists_inlines {scope' text : String}
    (h : TypePosition scope schema scope' (.string text))
    (hname : qualifyReference scope' text = name) (definition : Json) :
    ∃ schema', Inlines name definition scope schema schema' := by
  generalize hinner : Json.string text = inner at h
  induction h with
  | here =>
      subst hinner
      exact ⟨definition, .here hname⟩
  | @inside scope _ schema _ part hpart _ ih =>
      obtain ⟨y, hy⟩ := ih hname hinner
      cases schema with
      | array items =>
          obtain ⟨item, hitem, rfl⟩ := List.mem_map.1 hpart
          obtain ⟨before, after, rfl⟩ := List.append_of_mem hitem
          exact ⟨_, .item before after hy⟩
      | object members =>
          rcases field_or_inner_of_mem_parts hpart with
            ⟨kind, before, fieldMembers, after, hkind, hrecord, hfields, hfound, hscope⟩ |
              ⟨key, hkey, hfound, hscope⟩
          · exact ⟨_, .field before fieldMembers after hkind hrecord hfields hfound
              (hscope ▸ hy)⟩
          · exact ⟨_, .inner hkey hfound (hscope ▸ hy)⟩
      | _ => simp [parts] at hpart

/-- **A definition can be put into a schema exactly where there is a reference to it**: wherever
a text at a type position stands for its name in the scope there. -/
theorem exists_inlines_iff :
    (∃ schema', Inlines name definition scope schema schema') ↔
      ∃ scope' text, TypePosition scope schema scope' (.string text) ∧
      qualifyReference scope' text = name := by
  constructor
  · rintro ⟨schema', h⟩
    induction h with
    | @here scope text hreference => exact ⟨scope, text, .here _ _, hreference⟩
    | @item scope x y before after _ ih =>
        obtain ⟨scope', text, hposition, hname⟩ := ih
        have hmem : (scope, x) ∈ parts scope (.array (before ++ x :: after)) :=
          List.mem_map_of_mem (by simp)
        exact ⟨scope', text, .inside hmem hposition, hname⟩
    | @inner scope key members x y hkey hfound _ ih =>
        obtain ⟨scope', text, hposition, hname⟩ := ih
        have hmem : (scope, x) ∈ parts scope (.object members) := by
          simp [parts_of_innerKey? hkey hfound]
        exact ⟨scope', text, .inside hmem hposition, hname⟩
    | @field scope kind members x y before fieldMembers after hkind hrecord hfields hfound
        _ ih =>
        obtain ⟨scope', text, hposition, hname⟩ := ih
        have hmem : (Name.space (declaredName scope members), x) ∈
            parts scope (.object members) := by
          simp [parts_of_fields hkind hrecord hfields hfound]
        exact ⟨scope', text, .inside hmem hposition, hname⟩
  · rintro ⟨scope', text, hposition, hname⟩
    exact hposition.exists_inlines hname definition

/-- **The definitions of a schema into which a definition is put**: those of the schema, and
those of the definition where the reference stood.  The definitions around it are respelled. -/
theorem Inlines.putIn (h : Inlines name definition scope schema schema')
    (hname : StatesName name definition) (hwell : schema.wellFormed = true) :
    PutIn name definition (definitions scope schema) (definitions scope schema') := by
  induction h with
  | @here scope text _ =>
      refine ⟨[], [], [], ?_, ?_, .nil⟩
      · rw [definitions_eq]
        rfl
      · rw [List.nil_append, List.append_nil, hname.definitions_eq]
  | item before after _ ih =>
      rw [Json.wellFormed_array_middle_iff] at hwell
      exact .of_parts _ _ List.map_append List.map_append (ih hwell.2.1) .nil
  | @inner scope key members x y hkey hfound hinside ih =>
      have hkey' := hinside.innerKey?_insert hkey hfound
      have hfound' := Entries.lookup_insert_self key y members
      refine .of_parts [] [] (parts_of_innerKey? hkey hfound) (parts_of_innerKey? hkey' hfound')
        (ih (Json.wellFormed_of_lookup hwell hfound)) ?_
      rw [ownDefinition_of_innerKey? hkey, ownDefinition_of_innerKey? hkey']
      exact .nil
  | @field scope kind members x y before fieldMembers after hkind hrecord hfields hfound
      hinside ih =>
      have hnamed := isNamedKind_of_isRecordKind hrecord
      have hkind' : (retype before fieldMembers after y members).lookup "type" =
          some (.string kind) := by
        rw [lookup_retype_of_ne (by decide), hkind]
      have hfound' := Entries.lookup_insert_self "type" y fieldMembers
      have hparts : parts scope _ = _ :=
        parts_of_fields hkind' hrecord lookup_fields_retype hfound'
      have hfieldWell : (Json.object fieldMembers).wellFormed = true :=
        Json.wellFormed_array_iff.1 (Json.wellFormed_of_lookup hwell hfields) _ (by simp)
      rw [declaredName_retype] at hparts
      refine .of_parts _ _ (parts_of_fields hkind hrecord hfields hfound) hparts
        (ih (Json.wellFormed_of_lookup hfieldWell hfound)) ?_
      have hown := ownDefinition_of_kind scope hkind hnamed
      rw [hown, ownDefinition_of_kind scope hkind' hnamed, declaredName_retype]
      have hinlines : Inlines name definition scope (.object members) _ :=
        .field before fieldMembers after hkind hrecord hfields hfound hinside
      exact .cons (.inside hinlines hwell hown) .nil

end Inlines

end AvroBindings.Schema
