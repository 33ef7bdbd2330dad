import AvroBindings.Proofs.Convert.Faults
import AvroBindings.Proofs.NamedType.Described
import AvroBindings.Proofs.Run.Loading

/-!
# Closed tables

A table has an entry for every reference in it if the document that it describes defines what it
refers to.  Conversion with such a table never comes to a name that it does not know.

## Main Definitions

* `Registry.Mentions` — a name is that of an entry or stands in one.
* `Registry.Describes` — one type is described for each entry.
* `Table.Closed` — every reference of a field is a key of the table.

## Main Statements

* `Table.describeAll_eq_ok_iff` — which schemas are described together, and how.
* `Table.mem_names_insertAll`, `Table.exists_of_mem_fields` — what is in a table that was made
  of named types.
* `Registry.Sound.exists_mentioned_of_reference`, `Registry.Sound.exists_key_of_reference` —
  what a described entry refers to is mentioned, or is an entry.
* `Registry.Sound.describes` — entries are described under their keys, without the leading text.
* `Table.Reaches.references_subset` — names that refer to one another only are all that is
  reached from them.
* `Table.closed_ofParsed` — closed documents give closed tables.

## Design Notes

**Two places where a prefix is taken off.**  The name of an entry and a reference to it are
stripped independently.  Both are stripped from the full name that the registry has as a key, so
they are equal again, whatever the prefix.
-/

namespace AvroBindings

/-! ## Tables of schemas -/

namespace Table

theorem mem_names_insert {table : Table} {type : NamedType} {name : String} :
    name ∈ (table.insert type).names ↔ name = type.name ∨ name ∈ table.names := by
  unfold names insert
  rw [Entries.keys_insert]
  split
  next hmem =>
    rw [iff_or_self]
    rintro rfl
    exact hmem
  next => rw [List.mem_append, List.mem_singleton, or_comm]

/-- Types put in one after another add their names. -/
theorem mem_names_insertAll {table : Table} {types : List NamedType} {name : String} :
    name ∈ (types.foldl insert table).names ↔ name ∈ table.names ∨
      ∃ type ∈ types, type.name = name := by
  induction types generalizing table with
  | nil => simp
  | cons type rest ih => simp [ih, mem_names_insert, or_assoc, or_left_comm, eq_comm]

/-- Types put in one after another add only their fields. -/
theorem exists_of_mem_fields {table : Table} {types : List NamedType} {field : Field}
    (h : field ∈ (types.foldl insert table).fields) :
    field ∈ table.fields ∨ ∃ record, NamedType.record record ∈ types ∧
    field ∈ record.fields := by
  induction types generalizing table with
  | nil => exact .inl h
  | cons type rest ih =>
      rcases ih h with hmem | ⟨record, hrecord, hmem⟩
      · obtain ⟨entry, hentry, hmem⟩ := List.mem_flatMap.1 hmem
        rcases Entries.mem_of_mem_insert hentry with rfl | hentry
        · cases type with
          | record record => exact .inr ⟨record, List.mem_cons_self, hmem⟩
          | enum enum => exact absurd hmem List.not_mem_nil
        · exact .inl (List.mem_flatMap.2 ⟨entry, hentry, hmem⟩)
      · exact .inr ⟨record, List.mem_cons_of_mem _ hrecord, hmem⟩

/-- Schemas are described together exactly if each of them is; their descriptions are put in one
after another. -/
theorem describeAll_eq_ok_iff {lead : String} {schemas : List Json} {table table' : Table} :
    describeAll lead schemas table = .ok table' ↔
      ∃ types, List.Forall₂ (fun schema type => NamedType.ofSchema lead schema = .ok type)
        schemas types ∧
        table' = types.foldl insert table := by
  induction schemas generalizing table with
  | nil => simp [describeAll, eq_comm]
  | cons schema rest ih =>
      rw [describeAll, bind_eq_ok_iff]
      simp only [ih, List.forall₂_cons_left_iff]
      constructor
      · rintro ⟨type, htype, types, htypes, rfl⟩
        exact ⟨type :: types, ⟨type, types, htype, htypes, rfl⟩, rfl⟩
      · rintro ⟨_, ⟨type, types, htype, htypes, rfl⟩, rfl⟩
        exact ⟨type, htype, types, htypes, rfl⟩

end Table

/-! ## References into a registry -/

namespace Registry

/-- A name with a dot is not that of a primitive type. -/
theorem notMem_primitiveNames_of_isDotted {name : String} (h : Name.isDotted name = true) :
    name ∉ Schema.primitiveNames := by
  have hprimitive : ∀ name ∈ Schema.primitiveNames, Name.isDotted name = false := by decide
  exact fun hmem => Bool.false_ne_true ((hprimitive name hmem).symm.trans h)

/-- **A registry mentions a name**: it is that of an entry, or a reference with a dot that
stands inside one. -/
def Mentions (registry : Registry) (name : String) : Prop :=
  name ∈ Entries.keys registry ∨
    Name.isDotted name = true ∧ ∃ entry ∈ registry, Schema.Nested (.string name) entry.2

/-- Where every reference is found, only the names of the entries are mentioned. -/
theorem ReferencesFound.mentions_iff {registry : Registry} (h : registry.ReferencesFound)
    {name : String} :
    registry.Mentions name ↔ name ∈ Entries.keys registry := by
  constructor
  · rintro (hkey | ⟨hdotted, entry, hentry, hnested⟩)
    · exact hkey
    · exact h entry hentry name hnested (notMem_primitiveNames_of_isDotted hdotted)
  · exact .inl

/-- **What a described entry refers to is mentioned**: each reference of a field is a name that
the registry mentions, without the leading text. -/
theorem Sound.exists_mentioned_of_reference {registry : Registry} (hsound : registry.Sound)
    {entry : String × Json} (hentry : entry ∈ registry) {lead : String} {record : Record}
    (h : NamedType.ofSchema lead entry.2 = .ok (.record record)) {field : Field}
    (hfield : field ∈ record.fields) {name : String} (hname : name ∈ field.type.references) :
    ∃ full, registry.Mentions full ∧ name = Name.stripPrefix lead full := by
  have hcovers : Covers registry entry.2 := by
    obtain ⟨before, after, hsplit⟩ := List.append_of_mem hentry
    refine (hsound.closed before entry after hsplit).mono ?_
    rw [hsplit]
    exact List.subset_append_left _ _
  have hnamed : ∀ inner, Schema.Nested inner entry.2 → Schema.IsDefinition inner →
      ∃ full, inner.textMember? "name" = some full := by
    intro inner hnested hdefinition
    obtain ⟨full, _, hfull, -⟩ := hcovers inner hnested hdefinition
    exact ⟨full, hfull⟩
  obtain ⟨inner, full, hnested, hstands, hdotted, rfl⟩ :=
    NamedType.exists_nested_of_reference h hnamed hfield hname
  refine ⟨full, ?_, rfl⟩
  cases hstands with
  | reference => exact .inr ⟨hdotted, entry, hentry, hnested⟩
  | definition hdefinition hfull =>
      obtain ⟨full', stored, hfull', hstored, -⟩ := hcovers inner hnested hdefinition
      obtain rfl : full = full' := Option.some.inj (hfull.symm.trans hfull')
      exact .inl (Entries.mem_keys.2 ⟨stored, hstored⟩)

/-- **What a described entry refers to is an entry**, if every reference is found: each
reference of a field is the name of an entry without the leading text. -/
theorem Sound.exists_key_of_reference {registry : Registry} (hsound : registry.Sound)
    (hfound : registry.ReferencesFound) {entry : String × Json} (hentry : entry ∈ registry)
    {lead : String} {record : Record}
    (h : NamedType.ofSchema lead entry.2 = .ok (.record record)) {field : Field}
    (hfield : field ∈ record.fields) {name : String} (hname : name ∈ field.type.references) :
    ∃ full ∈ Entries.keys registry, name = Name.stripPrefix lead full := by
  obtain ⟨full, hmentioned, hstrip⟩ :=
    hsound.exists_mentioned_of_reference hentry h hfield hname
  exact ⟨full, hfound.mentions_iff.1 hmentioned, hstrip⟩

/-- An entry is described under its key, without the leading text. -/
theorem Sound.name_of_ofSchema {registry : Registry} (hsound : registry.Sound)
    {entry : String × Json} (hentry : entry ∈ registry) {lead : String} {type : NamedType}
    (h : NamedType.ofSchema lead entry.2 = .ok type) :
    type.name = Name.stripPrefix lead entry.1 := by
  obtain ⟨full, hfull, hname⟩ := NamedType.name_of_ofSchema h
  obtain rfl : full = entry.1 :=
    Option.some.inj (hfull.symm.trans (hsound.definition entry hentry).named)
  exact hname

/-- **One type is described for each entry**, under the key of the entry without the leading
text. -/
def Describes (lead : String) (entries : Registry) (types : List NamedType) : Prop :=
  List.Forall₂ (fun entry type => NamedType.ofSchema lead entry.2 = .ok type ∧
    type.name = Name.stripPrefix lead entry.1) entries types

/-- The schemas of entries are described under the keys of the entries. -/
theorem Sound.describes {registry entries : Registry} (hsound : registry.Sound)
    (hentries : entries ⊆ registry) {lead : String} {types : List NamedType}
    (h : List.Forall₂ (fun schema type => NamedType.ofSchema lead schema = .ok type)
      (entries.map Prod.snd) types) :
    Describes lead entries types := by
  rw [List.forall₂_map_left_iff] at h
  refine ((List.forall₂_and_left _ _).2 ⟨fun entry hentry => hentry, h⟩).imp
    fun entry type hdescribed => ?_
  exact ⟨hdescribed.2, hsound.name_of_ofSchema (hentries hdescribed.1) hdescribed.2⟩

/-- The names of the types that entries describe are their keys without the leading text. -/
theorem Describes.names_eq {lead : String} {entries : Registry} {types : List NamedType}
    (h : Describes lead entries types) :
    types.map NamedType.name = (Entries.keys entries).map (Name.stripPrefix lead) := by
  have hequal : List.Forall₂ (· = ·) (entries.map fun entry => Name.stripPrefix lead entry.1)
      (types.map NamedType.name) := by
    rw [List.forall₂_map_left_iff, List.forall₂_map_right_iff]
    exact h.imp fun _ _ hdescribed => hdescribed.2.symm
  rw [List.forall₂_eq_eq_eq] at hequal
  rw [← hequal, Entries.keys, List.map_map]
  rfl

end Registry

/-! ## Closed tables -/

namespace Table

/-- **A table is closed**: every reference in the type of a field is a key. -/
def Closed (table : Table) : Prop :=
  ∀ field ∈ table.fields, ∀ name ∈ field.type.references, name ∈ table.names

/-- **What is reached refers to no other names** than a list of names that is closed: the types
of the fields of the records that it finds refer to names on the list. -/
theorem Reaches.references_subset {table : Table} {names : List String} {ty target : Descriptor}
    (closed : ∀ name ∈ names, ∀ r, table.find? name = some (.record r) → ∀ field ∈ r.fields,
      field.type.references ⊆ names)
    (h : table.Reaches ty target) (hty : ty.references ⊆ names) :
    target.references ⊆ names := by
  induction h with
  | refl ty => exact hty
  | optional _ ih => exact ih hty
  | union member _ ih =>
      exact ih fun name hname => hty (Descriptor.mem_referencesOfAll.2 ⟨_, member, hname⟩)
  | list _ ih => exact ih hty
  | map _ ih => exact ih hty
  | field found member _ ih =>
      exact ih (closed _ (hty (List.mem_singleton_self _)) _ found _ member)

/-- What is reached in a closed table from a type of keys is a key. -/
theorem Closed.mem_names_of_reaches {table : Table} (h : table.Closed) {ty : Descriptor}
    {name : String} (hreach : table.Reaches ty (.named name))
    (hty : ∀ name ∈ ty.references, name ∈ table.names) :
    name ∈ table.names := by
  have hreferences : (Descriptor.named name).references ⊆ table.names :=
    hreach.references_subset (fun _ _ r found field hfield =>
      h field (Table.mem_fields found hfield)) hty
  exact hreferences (List.mem_singleton_self _)

/-- With a closed table conversion at a type of keys finds every name. -/
theorem Closed.cause_ne_unsupported {table : Table} (h : table.Closed) {ty : Descriptor}
    (hty : ∀ name ∈ ty.references, name ∈ table.names) {plain : Json} {e : ConversionError}
    (herror : Value.ofPlain? table ty plain = some (.error e)) (name : String) :
    e.cause ≠ .unsupported name := by
  intro hcause
  obtain ⟨hreach, hnone⟩ := ofPlain?_misses herror name hcause
  exact Entries.lookup_eq_none_iff.1 hnone (h.mem_names_of_reaches hreach hty)

/-- **Closed documents give closed tables.**  If every reference in a document that was read
names a type of the document, then in its table every reference of a field is a key, whatever
prefix was taken off the names.  So a conversion that ends does not end with an unsupported
name, at a type of keys or at a key. -/
theorem closed_ofParsed {parsed : ParsedSchema} (hread : parsed.Read)
    (hfound : parsed.named.ReferencesFound) {lead : String} {table : Table}
    (h : Table.ofParsed parsed lead = .ok table) :
    (∀ field ∈ table.fields, ∀ name ∈ field.type.references, name ∈ table.names) ∧
    (∀ ty : Descriptor, (∀ name ∈ ty.references, name ∈ table.names) → ∀ plain e,
      Value.ofPlain? table ty plain = some (.error e) → ∀ name, e.cause ≠ .unsupported name) ∧
    ∀ key ∈ table.names, ∀ plain e, Value.ofPlainNamed? table key plain = some (.error e) →
      ∀ name, e.cause ≠ .unsupported name := by
  have hsound := hread.sound
  obtain ⟨types, htypes, rfl⟩ := describeAll_eq_ok_iff.1 h
  rw [List.forall₂_map_left_iff] at htypes
  have hclosed : (types.foldl insert empty).Closed := by
    intro field hfield name hname
    rcases exists_of_mem_fields hfield with hmem | ⟨record, hrecord, hfield⟩
    · exact absurd hmem List.not_mem_nil
    · -- The entry that is referred to is described as well, under the same name.
      obtain ⟨entry, hentry, hdescribed⟩ := exists_left_of_forall₂ htypes hrecord
      obtain ⟨full, hfull, rfl⟩ :=
        hsound.exists_key_of_reference hfound hentry hdescribed hfield hname
      obtain ⟨stored, hstored⟩ := Entries.mem_keys.1 hfull
      obtain ⟨type, htype, hstored'⟩ := exists_right_of_forall₂ htypes hstored
      exact mem_names_insertAll.2 (.inr ⟨type, htype, hsound.name_of_ofSchema hstored hstored'⟩)
  refine ⟨hclosed, fun ty hty plain e herror => hclosed.cause_ne_unsupported hty herror, ?_⟩
  intro key hkey plain e herror
  refine hclosed.cause_ne_unsupported (fun name hname => ?_) herror
  rwa [List.mem_singleton.1 hname]

/-- A record that refers to itself by its bare name. -/
def chain : Json :=
  .object [("type", .string "record"), ("name", .string "Node"), ("namespace", .string "a"),
    ("fields", .array
      [.object [("name", .string "next"), ("type", .array [.string "null", .string "Node"])]])]

/-- The registry of the chain. -/
def chainRegistry : Registry :=
  [("a.Node", .object [("type", .string "record"), ("name", .string "a.Node"),
    ("fields", .array
      [.object [("name", .string "next"),
        ("type", .array [.string "null", .string "a.Node"])]])])]

theorem referencesFound_chainRegistry : chainRegistry.ReferencesFound := by
  intro entry hentry name hnested hname
  obtain rfl := List.mem_singleton.1 hentry
  obtain ⟨scope, scope', part, hpart, hposition⟩ := hnested
  obtain rfl :=
    List.mem_singleton.1 (show part ∈ [(_, .array [.string "null", .string "a.Node"])] from
      hpart)
  cases hposition with
  | inside hitem hposition =>
      rcases List.mem_pair.1 hitem with rfl | rfl
      · obtain rfl := Json.string.inj hposition.eq_of_string
        exact absurd hname (by decide)
      · obtain rfl := Json.string.inj hposition.eq_of_string
        exact List.mem_singleton_self _

/-- The table of the chain, its namespace taken off. -/
def chainTable : Table :=
  ⟨[("Node", .record ⟨"Node", [⟨"next", .optional (.named "Node"), none, none⟩], none⟩)]⟩

/-- The table of the chain is closed; an integer in the place of a node is refused as one. -/
theorem closed_ofParsed_chain :
    ∃ parsed, ParsedSchema.Read parsed ∧ parsed.named.ReferencesFound ∧
      Table.ofParsed parsed "a." = .ok chainTable ∧ chainTable.names = ["Node"] ∧
      (∀ field ∈ chainTable.fields, ∀ name ∈ field.type.references, name ∈ chainTable.names) ∧
      ∃ e, Value.ofPlainNamed? chainTable "Node" (.object [("next", .number (.int 3))]) =
          some (.error e) ∧
        ∀ name, e.cause ≠ .unsupported name := by
  have hwell : chain.wellFormed = true := by decide
  have haccepted : Schema.parse chain = .ok ⟨Schema.qualified "" chain, chainRegistry⟩ := rfl
  have hread := ParsedSchema.Read.parsed hwell haccepted
  have htable : Table.ofParsed ⟨Schema.qualified "" chain, chainRegistry⟩ "a." =
      .ok chainTable := rfl
  obtain ⟨hclosed, -, hnamed⟩ := closed_ofParsed hread referencesFound_chainRegistry htable
  refine ⟨_, hread, referencesFound_chainRegistry, htable, rfl, hclosed, ?_⟩
  have herror : Value.ofPlainNamed? chainTable "Node" (.object [("next", .number (.int 3))]) =
      some (.error (.inField "Node" "next" (.mismatch "Node" (.number (.int 3))))) := rfl
  exact ⟨_, herror, hnamed "Node" (List.mem_singleton_self _) _ _ herror⟩

end Table

end AvroBindings
