import Mathlib.Data.List.Dedup
import AvroBindings.Proofs.Name.Stripped
import AvroBindings.Proofs.Table.Closed

/-!
# Tables of stripped names

What a table holds of a registry once a leading text is taken off the names.  Two names can
become one, and then only the type that is described last is kept.

## Main Definitions

* `Registry.StripsApart` — no two names become one.

## Main Statements

* `Table.find?_insertAll_eq_some_iff` — of types put in one after another the last one of a name
  is found.
* `Table.stripped_ofParsed` — what the table of a document holds.

## Design Notes

Names are stripped one by one.  A name that does not start with the leading text stays as it is,
so it can meet a name that is the same text with the leading text in front.
-/

namespace AvroBindings

/-- **No two names of a registry become one** when a leading text is taken off. -/
def Registry.StripsApart (lead : String) (registry : Registry) : Prop :=
  ∀ name ∈ Entries.keys registry, ∀ other ∈ Entries.keys registry,
    Name.stripPrefix lead name = Name.stripPrefix lead other → name = other

/-- Names stay apart exactly if none is there both with the leading text and without it. -/
theorem Registry.stripsApart_iff {lead : String} {registry : Registry} :
    registry.StripsApart lead ↔
      ∀ name ∈ Entries.keys registry, lead ++ name ∈ Entries.keys registry →
      lead.toList <+: name.toList := by
  constructor
  · intro h name hname hlead
    by_contra hstart
    have heq := h _ hlead name hname (Name.stripPrefix_eq_iff.2 (.inr (.inl ⟨rfl, hstart⟩)))
    obtain rfl : lead = "" := by simpa using congrArg String.toList heq
    exact hstart List.nil_prefix
  · intro h name hname other hother heq
    rcases Name.stripPrefix_eq_iff.1 heq with rfl | ⟨rfl, hstart⟩ | ⟨rfl, hstart⟩
    · rfl
    · exact absurd (h other hother hname) hstart
    · exact absurd (h name hname hother) hstart

section StripsApart

variable {lead : String} {registry : Registry} (hdistinct : (Entries.keys registry).Nodup)

include hdistinct

/-- Names that stay apart are as many as the entries. -/
theorem Registry.length_dedup_stripped_iff :
    ((Entries.keys registry).map (Name.stripPrefix lead)).dedup.length = registry.length ↔
      registry.StripsApart lead := by
  have hlength :
      registry.length = ((Entries.keys registry).map (Name.stripPrefix lead)).length := by
    rw [List.length_map, Entries.keys, List.length_map]
  rw [hlength]
  calc _ ↔ ((Entries.keys registry).map (Name.stripPrefix lead)).dedup
          = (Entries.keys registry).map (Name.stripPrefix lead) :=
        ⟨(List.dedup_sublist _).eq_of_length, congrArg List.length⟩
    _ ↔ ((Entries.keys registry).map (Name.stripPrefix lead)).Nodup := List.dedup_eq_self
    _ ↔ registry.StripsApart lead := List.nodup_map_iff_inj_on hdistinct

/-- Where names stay apart, no later entry gets the name of an entry. -/
theorem Registry.StripsApart.stripPrefix_ne (hapart : registry.StripsApart lead)
    {before after : Registry} {entry : String × Json}
    (hsplit : registry = before ++ entry :: after) :
    ∀ later ∈ after, Name.stripPrefix lead later.1 ≠ Name.stripPrefix lead entry.1 := by
  subst hsplit
  intro later hlater heq
  have hentry : entry ∈ before ++ entry :: after := List.mem_append_right _ List.mem_cons_self
  have hmem : later ∈ before ++ entry :: after :=
    List.mem_append_right _ (List.mem_cons_of_mem _ hlater)
  have hkey :=
    hapart later.1 (List.mem_map_of_mem hmem) entry.1 (List.mem_map_of_mem hentry) heq
  rw [Entries.keys, List.map_append, List.map_cons] at hdistinct
  exact (List.nodup_middle.1 hdistinct).notMem
    (List.mem_append_right _ (hkey ▸ List.mem_map_of_mem hlater))

end StripsApart

/-! ## Tables of types -/

namespace Table

variable {types : List NamedType}

/-- Types put into an empty table one after another are pairs put in under their names. -/
theorem insertAll_empty_eq (types : List NamedType) :
    types.foldl insert empty = ⟨Entries.ofPairs (types.map fun type => (type.name, type))⟩ := by
  suffices h : ∀ table : Table,
      types.foldl insert table = ⟨(types.map fun type => (type.name, type)).foldl
      (fun entries pair => Entries.insert pair.1 pair.2 entries) table.entries⟩ by
    exact h empty
  induction types with
  | nil => exact fun table => rfl
  | cons type rest ih => exact fun table => ih (table.insert type)

theorem names_nodup_insertAll : (types.foldl insert empty).names.Nodup := by
  rw [insertAll_empty_eq]
  exact Entries.keys_nodup_ofPairs _

/-- **Of types put in one after another the last one of a name is found.** -/
theorem find?_insertAll_eq_some_iff {name : String} {type : NamedType} :
    (types.foldl insert empty).find? name = some type ↔
      type.name = name ∧ ∃ before after, types = before ++ type :: after ∧
        ∀ other ∈ after, other.name ≠ name := by
  rw [insertAll_empty_eq, find?, Entries.lookup_eq_some_iff_mem (Entries.keys_nodup_ofPairs _),
    Entries.mem_ofPairs_map_iff]
  constructor
  · rintro ⟨before, last, after, hsplit, hpair, hafter⟩
    obtain ⟨rfl, rfl⟩ := Prod.mk.inj hpair
    exact ⟨rfl, before, after, hsplit, hafter⟩
  · rintro ⟨rfl, before, after, hsplit, hafter⟩
    exact ⟨before, type, after, hsplit, rfl, hafter⟩

/-- A table of types has as many entries as they have names. -/
theorem size_insertAll :
    (types.foldl insert empty).size = (types.map NamedType.name).dedup.length := by
  have hsame : (types.foldl insert empty).names.Perm (types.map NamedType.name).dedup := by
    refine (List.perm_ext_iff_of_nodup names_nodup_insertAll (List.nodup_dedup _)).2
      fun name => ?_
    rw [mem_names_insertAll, List.mem_dedup, List.mem_map]
    exact or_iff_right (show name ∉ empty.names from List.not_mem_nil)
  rw [← hsame.length_eq, names, Entries.keys, List.length_map, size]

/-! ## Tables of documents -/

/-- Of the entries whose names become one the last is found in the table. -/
theorem find?_of_describes {lead : String} {registry before after : Registry}
    {entry : String × Json} (h : Registry.Describes lead registry types)
    (hsplit : registry = before ++ entry :: after)
    (hlater : ∀ later ∈ after, Name.stripPrefix lead later.1 ≠ Name.stripPrefix lead entry.1) :
    ∃ type, NamedType.ofSchema lead entry.2 = .ok type ∧
      (types.foldl insert empty).find? (Name.stripPrefix lead entry.1) = some type := by
  rw [hsplit] at h
  obtain ⟨before', type, after', rfl, ⟨htype, hname⟩, hafter⟩ := exists_append_of_forall₂ h
  refine ⟨type, htype,
    find?_insertAll_eq_some_iff.2 ⟨hname, before', after', rfl, fun other hother => ?_⟩⟩
  obtain ⟨later, hmem, -, hother'⟩ := exists_left_of_forall₂ hafter hother
  exact hother' ▸ hlater later hmem

/-- **What the table of a document holds**, whatever text was taken off the names.  Its keys are
the stripped names, each once.  Under a stripped name there is the description of the last entry
with that name.  It has as many entries as the registry exactly if no two names became one,
which is to say that none was there both with the leading text and without it; then every entry
is described under its own stripped name. -/
theorem stripped_ofParsed {parsed : ParsedSchema} (hread : parsed.Read) {lead : String}
    {table : Table} (h : ofParsed parsed lead = .ok table) :
    table.names.Nodup ∧
    (∀ name, name ∈ table.names ↔
      ∃ full ∈ Entries.keys parsed.named, name = Name.stripPrefix lead full) ∧
    (∀ before entry after, parsed.named = before ++ entry :: after →
      (∀ later ∈ after, Name.stripPrefix lead later.1 ≠ Name.stripPrefix lead entry.1) →
      ∃ type, NamedType.ofSchema lead entry.2 = .ok type ∧
      table.find? (Name.stripPrefix lead entry.1) = some type) ∧
    (table.size = parsed.named.length ↔ parsed.named.StripsApart lead) ∧
    (parsed.named.StripsApart lead ↔
      ∀ name ∈ Entries.keys parsed.named, lead ++ name ∈ Entries.keys parsed.named →
      lead.toList <+: name.toList) ∧
    (parsed.named.StripsApart lead → ∀ entry ∈ parsed.named, ∃ type,
      NamedType.ofSchema lead entry.2 = .ok type ∧
      table.find? (Name.stripPrefix lead entry.1) = some type) := by
  have hdistinct := hread.sound.distinct
  obtain ⟨types, hschemas, rfl⟩ := describeAll_eq_ok_iff.1 h
  have hdescribes := hread.sound.describes (List.Subset.refl _) hschemas
  refine ⟨names_nodup_insertAll, fun name => ?_,
    fun before entry after hsplit => find?_of_describes hdescribes hsplit, ?_,
    Registry.stripsApart_iff, fun hapart entry hentry => ?_⟩
  · rw [mem_names_insertAll,
      or_iff_right (show name ∉ empty.names from List.not_mem_nil), ← List.mem_map,
      hdescribes.names_eq, List.mem_map]
    exact exists_congr fun full => and_congr_right fun _ => eq_comm
  · rw [size_insertAll, hdescribes.names_eq]
    exact Registry.length_dedup_stripped_iff hdistinct
  · obtain ⟨before, after, hsplit⟩ := List.append_of_mem hentry
    exact find?_of_describes hdescribes hsplit (hapart.stripPrefix_ne hdistinct hsplit)

/-- A color with one symbol. -/
def colorSchema (name symbol : String) : Json :=
  .object [("type", .string "enum"), ("name", .string name),
    ("symbols", .array [.string symbol])]

/-- A union of a color of the arts and another color. -/
def colorsDocument (other : String) : Json :=
  .array [colorSchema "art.Color" "RED", colorSchema other "BLUE"]

/-- What is parsed from the union. -/
def colorsParsed (other : String) : ParsedSchema :=
  ⟨colorsDocument other,
    [("art.Color", colorSchema "art.Color" "RED"), (other, colorSchema other "BLUE")]⟩

/-- With a name of its own the other color is kept beside the one that loses its namespace. -/
theorem stripped_ofParsed_shade :
    ∃ table, ParsedSchema.Read (colorsParsed "Shade") ∧
      ofParsed (colorsParsed "Shade") "art." = .ok table ∧
      (colorsParsed "Shade").named.StripsApart "art." ∧ table.size = 2 ∧
      ∀ entry ∈ (colorsParsed "Shade").named, ∃ type,
        NamedType.ofSchema "art." entry.2 = .ok type ∧
        table.find? (Name.stripPrefix "art." entry.1) = some type := by
  have haccepted : Schema.parse (colorsDocument "Shade") = .ok (colorsParsed "Shade") := rfl
  have hread := ParsedSchema.Read.parsed (by decide) haccepted
  have htable : ofParsed (colorsParsed "Shade") "art." =
      .ok ⟨[("Color", .enum ⟨"Color", ["RED"], none⟩),
        ("Shade", .enum ⟨"Shade", ["BLUE"], none⟩)]⟩ := rfl
  obtain ⟨-, -, -, hsize, hapart, hfound⟩ := stripped_ofParsed hread htable
  have hstrips : (colorsParsed "Shade").named.StripsApart "art." := hapart.2 (by decide)
  exact ⟨_, hread, htable, hstrips, hsize.2 hstrips, hfound hstrips⟩

/-- With the name that is left of the first color, the other one takes its place: the table has
one entry for the two of the registry, and under the name of the first color it describes the
second. -/
theorem ofParsed_loses_color :
    ParsedSchema.Read (colorsParsed "Color") ∧
      Entries.keys (colorsParsed "Color").named = ["art.Color", "Color"] ∧
      ∃ table, ofParsed (colorsParsed "Color") "art." = .ok table ∧ table.size = 1 ∧
        NamedType.ofSchema "art." (colorSchema "art.Color" "RED") =
          .ok (.enum ⟨"Color", ["RED"], none⟩) ∧
        table.find? (Name.stripPrefix "art." "art.Color") =
          some (.enum ⟨"Color", ["BLUE"], none⟩) := by
  have haccepted : Schema.parse (colorsDocument "Color") = .ok (colorsParsed "Color") := rfl
  exact ⟨.parsed (by decide) haccepted, rfl, ⟨[("Color", .enum ⟨"Color", ["BLUE"], none⟩)]⟩,
    rfl, rfl, rfl, rfl⟩

end Table

end AvroBindings
