import AvroBindings.Proofs.Convert.Renamed
import AvroBindings.Proofs.Table.Stripped

/-!
# Tables under other names

Taking a leading text off the names of a document renames its table and nothing else, if
different names stay different: the table has the same types in the same order, and conversion
with it takes the same data and gives the same values, but for the names.

## Main Statements

* `Table.ofParsed_iff_exists_types` — which tables a document has, whatever is taken off its
  names.
* `Table.exists_ofParsed_iff` — whether there is a table does not depend on what is taken off.
* `Table.ofParsed_eq_rename` — the table of a document under other names.
* `Table.renamed_ofParsed` — a leading text that keeps the names of a document apart renames its
  table.

## Design Notes

Whether a document has a table does not depend on the leading text at all; which types are in it
does, since of two types that get one name only the later is kept.
-/

namespace AvroBindings

namespace Table

/-- **Which tables a document has**: the types of its entries are described with their full
names and renamed, and put in one after another. -/
theorem ofParsed_iff_exists_types {parsed : ParsedSchema} {lead : String} {table : Table} :
    ofParsed parsed lead = .ok table ↔
      ∃ types, List.Forall₂ (fun schema type => NamedType.ofSchema "" schema = .ok type)
          (parsed.named.map Prod.snd) types ∧
        table = (types.map (NamedType.rename (Name.stripPrefix lead))).foldl insert empty := by
  rw [ofParsed, describeAll_eq_ok_iff]
  constructor
  · rintro ⟨types, htypes, rfl⟩
    obtain ⟨wholes, hwholes, rfl⟩ :=
      (forall₂_iff_exists_map fun _ _ => NamedType.ofSchema_stripped_iff).1 htypes
    exact ⟨wholes, hwholes, rfl⟩
  · rintro ⟨wholes, hwholes, rfl⟩
    exact ⟨_, (forall₂_iff_exists_map fun _ _ => NamedType.ofSchema_stripped_iff).2
      ⟨wholes, hwholes, rfl⟩, rfl⟩

/-- Types of different names that stay different are put in alike under other names. -/
theorem insertAll_rename {f : String → String} {types : List NamedType}
    (hdistinct : (types.map NamedType.name).Nodup)
    (hinjective : Set.InjOn f {name | name ∈ types.map NamedType.name}) :
    (types.map (NamedType.rename f)).foldl insert empty =
      (types.foldl insert empty).rename f := by
  -- No type takes the place of another one, on either side, so both tables list the types as
  -- they come.
  have hpairs : ∀ types : List NamedType, (types.map NamedType.name).Nodup →
      types.foldl insert empty = ⟨types.map fun type => (type.name, type)⟩ := by
    intro types hdistinct
    rw [insertAll_empty_eq, Entries.ofPairs_of_nodup]
    rwa [Entries.keys, List.map_map]
  have hnames : (types.map (NamedType.rename f)).map NamedType.name =
      (types.map NamedType.name).map f := by
    rw [List.map_map, List.map_map]
    exact List.map_congr_left fun type _ => type.name_rename f
  have hdistinct' : ((types.map (NamedType.rename f)).map NamedType.name).Nodup := by
    rw [hnames]
    exact hdistinct.map_on fun name hname other hother heq => hinjective hname hother heq
  rw [hpairs _ hdistinct', hpairs _ hdistinct, rename, List.map_map, List.map_map]
  congr 1
  exact List.map_congr_left fun type _ => Prod.ext (type.name_rename f) rfl

/-- **The names in the table of a document are names that its registry mentions.** -/
theorem namedWithin_of_ofParsed {parsed : ParsedSchema} (hread : parsed.Read) {table : Table}
    (h : ofParsed parsed "" = .ok table) :
    table.NamedWithin {name | parsed.named.Mentions name} := by
  obtain ⟨types, htypes, rfl⟩ := describeAll_eq_ok_iff.1 h
  have hdescribes := hread.sound.describes (List.Subset.refl _) htypes
  constructor
  · intro key hkey
    obtain ⟨type, htype, rfl⟩ := (mem_names_insertAll.1 hkey).resolve_left List.not_mem_nil
    obtain ⟨entry, hentry, -, hname⟩ := exists_left_of_forall₂ hdescribes htype
    rw [hname, Name.stripPrefix_empty]
    exact .inl (List.mem_map_of_mem hentry)
  · intro field hfield name hname
    obtain ⟨record, hrecord, hfield⟩ :=
      (exists_of_mem_fields hfield).resolve_left List.not_mem_nil
    obtain ⟨entry, hentry, hdescribed, -⟩ := exists_left_of_forall₂ hdescribes hrecord
    obtain ⟨full, hmentioned, rfl⟩ :=
      hread.sound.exists_mentioned_of_reference hentry hdescribed hfield hname
    rwa [Name.stripPrefix_empty]

/-- Whether a document has a table does not depend on the leading text. -/
theorem exists_ofParsed_iff (parsed : ParsedSchema) (lead lead' : String) :
    (∃ table, ofParsed parsed lead = .ok table) ↔
      ∃ table, ofParsed parsed lead' = .ok table := by
  simp only [ofParsed_iff_exists_types]
  constructor
  · rintro ⟨_, types, htypes, -⟩
    exact ⟨_, types, htypes, rfl⟩
  · rintro ⟨_, types, htypes, -⟩
    exact ⟨_, types, htypes, rfl⟩

/-- A leading text that keeps the names of the entries apart renames the table. -/
theorem ofParsed_eq_rename {parsed : ParsedSchema} (hread : parsed.Read) {lead : String}
    (hinjective : Set.InjOn (Name.stripPrefix lead) {name | name ∈ Entries.keys parsed.named})
    {table : Table} (h : ofParsed parsed "" = .ok table) :
    ofParsed parsed lead = .ok (table.rename (Name.stripPrefix lead)) := by
  obtain ⟨types, htypes, rfl⟩ := describeAll_eq_ok_iff.1 h
  have hkeys : types.map NamedType.name = Entries.keys parsed.named := by
    rw [(hread.sound.describes (List.Subset.refl _) htypes).names_eq]
    exact (List.map_congr_left fun name _ => Name.stripPrefix_empty name).trans (List.map_id _)
  refine ofParsed_iff_exists_types.2 ⟨types, htypes, (insertAll_rename ?_ ?_).symm⟩
  · rw [hkeys]
    exact hread.sound.distinct
  · rw [hkeys]
    exact hinjective

/-- **A leading text only renames the table of a document.**  Whether there is a table does not
depend on it.  If no two names that the registry mentions become one, the table is that of the
full names with the leading text taken off its keys, its types and their references.  Conversion
at a stripped name then ends on the same data as at the full one, and takes the same data, and
gives the same values with the leading text taken off the names of their records. -/
theorem renamed_ofParsed {parsed : ParsedSchema} (hread : parsed.Read) (lead : String) :
    ((∃ table, ofParsed parsed lead = .ok table) ↔ ∃ table, ofParsed parsed "" = .ok table) ∧
    (Set.InjOn (Name.stripPrefix lead) {name | parsed.named.Mentions name} →
      ∀ table, ofParsed parsed "" = .ok table →
        ofParsed parsed lead = .ok (table.rename (Name.stripPrefix lead)) ∧
        ∀ full ∈ Entries.keys parsed.named, ∀ plain,
          (Value.ofPlainNamed? (table.rename (Name.stripPrefix lead))
            (Name.stripPrefix lead full) plain = none ↔
            Value.ofPlainNamed? table full plain = none) ∧
          ∀ v', Value.ofPlainNamed? (table.rename (Name.stripPrefix lead))
              (Name.stripPrefix lead full) plain = some (.ok v') ↔
            ∃ v, Value.ofPlainNamed? table full plain = some (.ok v) ∧
              v' = v.rename (Name.stripPrefix lead)) := by
  refine ⟨exists_ofParsed_iff parsed lead "",
    fun hinjective table htable => ⟨?_, fun full hfull plain => ?_⟩⟩
  · exact ofParsed_eq_rename hread (hinjective.mono fun name hname => .inl hname) htable
  -- All that conversion looks up is mentioned in the registry, where different names stay
  -- different.
  · have hcorresponds :=
      ofPlain?_corresponds hinjective (namedWithin_of_ofParsed hread htable) (.named full) plain
      (List.forall_mem_singleton.2 (.inl hfull))
    exact ⟨hcorresponds.eq_none_iff, fun v' => hcorresponds.eq_ok_iff⟩

/-- The table of the chain with its full names. -/
def wholeChainTable : Table :=
  ⟨[("a.Node", .record ⟨"a.Node", [⟨"next", .optional (.named "a.Node"), none, none⟩], none⟩)]⟩

/-- A chain of two nodes. -/
def chainPlain : Json := .object [("next", .object [("next", .null)])]

/-- Without its namespace the chain has the table of its full names, renamed, and two nodes are
converted to records of the stripped name. -/
theorem renamed_ofParsed_chain :
    ∃ parsed, ParsedSchema.Read parsed ∧
      Set.InjOn (Name.stripPrefix "a.") {name | parsed.named.Mentions name} ∧
      ofParsed parsed "" = .ok wholeChainTable ∧
      ofParsed parsed "a." = .ok (wholeChainTable.rename (Name.stripPrefix "a.")) ∧
      Value.ofPlainNamed? (wholeChainTable.rename (Name.stripPrefix "a."))
        (Name.stripPrefix "a." "a.Node") chainPlain =
        some (.ok (.record "Node" [("next", .record "Node" [("next", .null)])])) := by
  have hwell : chain.wellFormed = true := by decide
  have haccepted : Schema.parse chain = .ok ⟨Schema.qualified "" chain, chainRegistry⟩ := rfl
  have hread := ParsedSchema.Read.parsed hwell haccepted
  have hinjective : Set.InjOn (Name.stripPrefix "a.") {name | chainRegistry.Mentions name} := by
    intro name hname other hother _
    obtain rfl := List.mem_singleton.1 (referencesFound_chainRegistry.mentions_iff.1 hname)
    exact (List.mem_singleton.1 (referencesFound_chainRegistry.mentions_iff.1 hother)).symm
  have htable : ofParsed ⟨Schema.qualified "" chain, chainRegistry⟩ "" = .ok wholeChainTable :=
    rfl
  have hvalue : Value.ofPlainNamed? wholeChainTable "a.Node" chainPlain =
      some (.ok (.record "a.Node" [("next", .record "a.Node" [("next", .null)])])) := rfl
  obtain ⟨-, hrenamed⟩ := renamed_ofParsed hread "a."
  obtain ⟨hstripped, hconverts⟩ := hrenamed hinjective wholeChainTable htable
  obtain ⟨-, htaken⟩ := hconverts "a.Node" (List.mem_singleton_self _) chainPlain
  exact ⟨_, hread, hinjective, htable, hstripped, (htaken _).2 ⟨_, hvalue, rfl⟩⟩

end Table

end AvroBindings
