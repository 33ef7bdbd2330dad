import Mathlib.Data.List.Permutation
import AvroBindings.Proofs.Run.Emission
import AvroBindings.Run.Program

/-!
# The order of emission

A run over a document emits one type for each entry of the registry, in the order of the
registry but for the root, which comes last.

## Main Statements

* `Generation.emitted_rootLast` — which types a run over a document emits, and in which order.

## Design Notes

**The root.**  An entry is left out of its turn because its name is the `name` member of the
root, and that may be any JSON value.  If the root is not a definition it is not described, so
the run does not succeed.  If it is one, it was entered last under that name, so what is written
for it is the entry that was left out, also where an earlier document had defined it.  A union
has no name, and no entry is left out.
-/

namespace AvroBindings

namespace Generation

/-- **A run over a document emits every entry once, the root last.**  The types that are emitted
are described by the entries one by one, and their names are the keys without the leading text.
The root is a union, and then the order is that of the registry; or it is the entry of its own
name, and that is the last. -/
theorem emitted_rootLast {parsed : ParsedSchema} (hread : parsed.Read) {options : Options}
    {generation generation' : Generation}
    (hrun : (emitParsed options parsed).perform generation = (.ok (), generation')) :
    ∃ types : List NamedType, Emits options generation types generation' ∧
      types.map NamedType.name = (Entries.keys parsed.rootLast).map
        (Name.stripPrefix options.lead) ∧
      List.Forall₂ (fun entry type => NamedType.ofSchema options.lead entry.2 = .ok type)
        parsed.rootLast types ∧
      parsed.rootLast.Perm parsed.named ∧
      ((∃ items, parsed.schema = .array items ∧ parsed.rootLast = parsed.named) ∨
        ∃ members name, parsed.schema = .object members ∧ parsed.rootName? = some name ∧
          parsed.named.lookup name = some parsed.schema ∧
          parsed.rootLast = parsed.named.filter (fun entry => entry.1 ≠ name) ++
            [(name, parsed.schema)]) := by
  obtain ⟨hroot, types, hdescribed, hemits⟩ := emitParsed_eq_ok_iff.1 hrun
  have hentries := ParsedSchema.describes_rootLast hread hdescribed
  refine ⟨types, hemits, hentries.names_eq, hentries.imp fun _ _ h => h.1,
    parsed.rootLast_perm, ?_⟩
  rcases hroot with ⟨items, hschema⟩ | ⟨members, hschema⟩
  · refine .inl ⟨items, hschema, ParsedSchema.rootLast_eq_named fun members hmembers => ?_⟩
    rw [hschema] at hmembers
    contradiction
  · obtain ⟨name, hname, hmem⟩ := ParsedSchema.exists_root hread hdescribed hschema
    have hdistinct := hread.sound.distinct
    refine .inr ⟨members, name, hschema, hname,
      (Entries.lookup_eq_some_iff_mem hdistinct).2 hmem, ?_⟩
    rw [ParsedSchema.rootLast_eq_of_root hname hmem hdistinct]
    refine congrArg (· ++ _) (List.filter_congr fun entry _ => ?_)
    simp [eq_comm]

/-- The unit of a quantity. -/
def unitDefinition : Json :=
  .object [("type", .string "enum"), ("name", .string "geo.Unit"),
    ("symbols", .array [.string "M"])]

/-- A length with its unit. -/
def lengthDefinition : Json :=
  .object [("type", .string "record"), ("name", .string "geo.Length"),
    ("fields", .array [.object [("name", .string "unit"), ("type", .string "geo.Unit")]])]

/-- A workspace with both documents. -/
def lengthWorkspace : Workspace :=
  ⟨⟨[(["unit.json"], .file (.text unitDefinition.compact)),
    (["length.json"], .file (.text lengthDefinition.compact))]⟩, .alone Program.launch⟩

/-- The unit, loaded once more after the length that refers to it. -/
def lengthParsed : ParsedSchema :=
  ⟨unitDefinition, [("geo.Unit", unitDefinition), ("geo.Length", lengthDefinition)]⟩

/-- The documents are loaded from their files. -/
theorem loadDocuments_lengthParsed :
    (Workspace.loadDocuments ["unit.json", "length.json", "unit.json"]).perform
        lengthWorkspace =
      (.ok lengthParsed, lengthWorkspace) := by
  have hparse : Json.parse unitDefinition.compact = .ok unitDefinition := by cbv
  have hparse' : Json.parse lengthDefinition.compact = .ok lengthDefinition := by cbv
  have hunit : (Workspace.loadJson "unit.json").perform lengthWorkspace =
      (.ok unitDefinition, lengthWorkspace) :=
    Workspace.perform_loadJson_of_readText (Outside.namesFile_alone _ (by decide))
      (by decide +kernel) hparse
  have hlength : (Workspace.loadJson "length.json").perform lengthWorkspace =
      (.ok lengthDefinition, lengthWorkspace) :=
    Workspace.perform_loadJson_of_readText (Outside.namesFile_alone _ (by decide))
      (by decide +kernel) hparse'
  rw [Workspace.loadDocuments, Workspace.perform_loadAfter_cons_eq_ok_iff]
  refine ⟨_, _, _, _, hunit, rfl,
    Workspace.perform_loadAfter_cons_eq_ok_iff.2 ⟨_, _, _, _, hlength, rfl, ?_⟩⟩
  exact Workspace.perform_loadAfter_cons_eq_ok_iff.2 ⟨_, _, _, _, hunit, rfl, rfl⟩

/-- The settings of a run that takes the namespace off. -/
def lengthOptions : Options := { Options.standard with lead := "geo.", outputRoot := ⟨"out"⟩ }

/-- The unit is the root and was defined by an earlier document; it is emitted once, after the
length. -/
theorem emitted_rootLast_length :
    ∃ generation' types,
      (emitParsed lengthOptions lengthParsed).perform (.start lengthWorkspace) =
        (.ok (), generation') ∧
      Emits lengthOptions (.start lengthWorkspace) types generation' ∧
      types.map NamedType.name = ["Length", "Unit"] ∧
      Entries.keys lengthParsed.named = ["geo.Unit", "geo.Length"] := by
  have hok : ((emitParsed lengthOptions lengthParsed).perform (.start lengthWorkspace)).1.isOk =
      true := by
    decide +kernel
  obtain ⟨generation', hrun⟩ := exists_eq_ok hok
  obtain ⟨types, hemits, hnames, -⟩ :=
    emitted_rootLast (.loaded loadDocuments_lengthParsed) hrun
  have horder : (Entries.keys lengthParsed.rootLast).map (Name.stripPrefix lengthOptions.lead) =
      ["Length", "Unit"] := by
    decide +kernel
  exact ⟨generation', types, hrun, hemits, hnames.trans horder, rfl⟩

end Generation

end AvroBindings
