import AvroBindings.Proofs.Declaration.Scope
import AvroBindings.Proofs.Name.Stripped
import AvroBindings.Proofs.Run.Emission
import AvroBindings.Run.Program

/-!
# Imports of a run

What the records of a document import is written in the same run, where Python looks for it.

## Main Statements

* `Generation.exists_emitted_of_imported` — the type of an import statement is emitted with the
  record.

## Design Notes

**Paths.**  The import statement has the module of a name, the file its path; each is built by a
function of its own.  They fit on full names, and a name without a leading text is full if the
text ends in a dot.
-/

namespace AvroBindings

namespace Generation

/-- **What a record imports is emitted in the same run.** -/
theorem exists_emitted_of_imported {document : Json} {parsed : ParsedSchema} {options : Options}
    {generation generation' : Generation} (hwell : document.wellFormed = true)
    (haccepted : Schema.parse document = .ok parsed) (hfound : parsed.named.ReferencesFound)
    (hlead : options.lead = "" ∨ options.lead.toList.getLast? = some '.')
    (hrun : (emitParsed options parsed).perform generation = (.ok (), generation')) :
    ∃ emitted : List Emitted,
      List.Forall₂ (fun schema e => NamedType.ofSchema options.lead schema = .ok e.type)
        parsed.schedule emitted ∧
      generation'.report = emitted.foldl Report.add generation.report ∧
      ∀ e ∈ emitted, ∀ record, e.type = .record record →
        record.source options.style =
          "\n".intercalate
              ((record.imports options.style).statements.map ImportStatement.text) ++
            "\n\n\n" ++ String.join ((record.lines options.style).map (· ++ "\n")) ∧
        ∀ statement ∈ (record.imports options.style).imported.map Imports.namedStatement,
          ∃ m ∈ emitted, Name.modulePath m.type.name = statement.module ∧
            statement.identifiers = [Name.className m.type.name] ∧
            m.path = options.outputRoot.join (Name.slashed statement.module ++ ".py") ∧
            m.path ∈ generation'.report.written ∧
            m.type.name ∈ generation'.report.table.names := by
  have hread := ParsedSchema.Read.parsed hwell haccepted
  have hsound := hread.sound
  obtain ⟨-, types, hdescribed, hemits⟩ := emitParsed_eq_ok_iff.1 hrun
  have hreport := hemits.report
  refine ⟨types.map (Emitted.of options.outputRoot), List.forall₂_map_right_iff.2 hdescribed,
    hreport, ?_⟩
  intro e he record hrecord
  refine ⟨record.source_eq_statements options.style, fun statement hstatement => ?_⟩
  obtain ⟨type, htype, rfl⟩ := List.mem_map.1 he
  obtain rfl : type = .record record := hrecord
  -- The record describes an entry, and so does what it imports.
  obtain ⟨entry, hmem, hentry, -⟩ := ParsedSchema.exists_entry_of_mem hread hdescribed htype
  obtain ⟨name, hname, rfl⟩ := List.mem_map.1 hstatement
  obtain ⟨field, hfield, href, -⟩ :=
    (record.mem_references_imports options.style).1 (Imports.mem_imported_iff.1 hname).1
  obtain ⟨full, hfull, rfl⟩ := hsound.exists_key_of_reference hfound hmem hentry hfield href
  obtain ⟨stored, hstored⟩ := Entries.mem_keys.1 hfull
  obtain ⟨other, hother, -, hothername⟩ :=
    ParsedSchema.exists_mem_of_entry hread hdescribed hstored
  have hwhole : Name.isFull (Name.stripPrefix options.lead full) = true :=
    Name.isFull_stripPrefix (hsound.definition _ hstored).fullName hlead
  have hemitted : Emitted.of options.outputRoot other ∈
      types.map (Emitted.of options.outputRoot) :=
    List.mem_map_of_mem hother
  have hending : "." ++ Emitted.fileExtension = ".py" := by decide
  rw [Imports.namedStatement, hreport]
  refine ⟨Emitted.of options.outputRoot other, hemitted, ?_, ?_, ?_,
    Report.path_mem_written hemitted, Report.name_mem_table hemitted⟩
  · rw [Emitted.of_type, hothername]
  · rw [Emitted.of_type, hothername]
  · rw [Emitted.of_path, Emitted.pathOf, hothername,
      Name.filePath_eq_module _ hwhole (by decide), String.append_assoc,
      hending]

/-- The status of an order, in a package of its own. -/
def statusDefinition : Json :=
  .object [("type", .string "enum"), ("name", .string "shop.model.Status"),
    ("symbols", .array [.string "OPEN"])]

/-- An order of a shop, with its status and the one before. -/
def orderDefinition : Json :=
  .object [("type", .string "record"), ("name", .string "shop.Order"),
    ("fields", .array [.object [("name", .string "status"), ("type", statusDefinition)],
      .object [("name", .string "last"), ("type", .string "shop.model.Status")]])]

/-- The order with the types that it defines. -/
def orderParsed : ParsedSchema :=
  ⟨orderDefinition, [("shop.model.Status", statusDefinition), ("shop.Order", orderDefinition)]⟩

theorem referencesFound_orderParsed : orderParsed.named.ReferencesFound := by
  have hstatus : ∀ scope scope' name,
      ¬Schema.TypePosition scope statusDefinition scope' (.string name) := by
    intro scope scope' name hposition
    cases hposition with
    | inside hpart => exact absurd hpart List.not_mem_nil
  intro entry hentry name ⟨scope, scope', part, hpart, hposition⟩ hname
  rcases List.mem_pair.1 hentry with rfl | rfl
  · exact absurd hpart List.not_mem_nil
  · have hparts : part ∈ [(_, statusDefinition), (_, .string "shop.model.Status")] := hpart
    rcases List.mem_pair.1 hparts with rfl | rfl
    · exact absurd hposition (hstatus _ _ _)
    · obtain rfl := Json.string.inj hposition.eq_of_string
      exact List.mem_cons_self

/-- The order as a named type, without the name of the shop. -/
def orderRecord : Record :=
  ⟨"Order", [⟨"status", .named "model.Status", none, none⟩,
    ⟨"last", .named "model.Status", none, none⟩], none⟩

/-- The settings of a run that takes the name of the shop off. -/
def orderOptions : Options := { Options.standard with lead := "shop.", outputRoot := ⟨"out"⟩ }

/-- The file of the order imports `Status` from `model.status`, which is written and
reported. -/
theorem exists_emitted_of_imported_order :
    ∃ generation', (emitParsed orderOptions orderParsed).perform
      (.start ⟨.empty, .alone Program.launch⟩) = (.ok (), generation') ∧
      ⟨"out/model/status.py"⟩ ∈ generation'.report.written ∧
      ∃ name ∈ generation'.report.table.names,
        Name.modulePath name = "model.status" ∧ Name.className name = "Status" := by
  have hwell : orderDefinition.wellFormed = true := by decide
  have haccepted : Schema.parse orderDefinition = .ok orderParsed := rfl
  have hok :
      ((emitParsed orderOptions orderParsed).perform
        (.start ⟨.empty, .alone Program.launch⟩)).1.isOk = true := by decide +kernel
  generalize hrun : (emitParsed orderOptions orderParsed).perform
    (.start ⟨.empty, .alone Program.launch⟩) = outcome at hok
  obtain ⟨_ | ⟨⟩, generation'⟩ := outcome
  · exact absurd hok Bool.false_ne_true
  obtain ⟨emitted, hdescribed, hreport, himports⟩ :=
    exists_emitted_of_imported hwell haccepted referencesFound_orderParsed
      (.inr (by decide +kernel)) hrun
  have hrecord : NamedType.ofSchema "shop." orderDefinition = .ok (.record orderRecord) := rfl
  have hschedule : orderDefinition ∈ orderParsed.schedule :=
    List.mem_append_right _ (List.mem_singleton_self _)
  obtain ⟨e, he, htype⟩ := exists_right_of_forall₂ hdescribed hschedule
  obtain ⟨-, hnamed⟩ := himports e he _ (Except.ok.inj (htype.symm.trans hrecord))
  have himported : "model.Status" ∈ (orderRecord.imports orderOptions.style).imported := by
    decide +kernel
  obtain ⟨m, -, hmodule, hclass, hpath, hwritten, hname⟩ :=
    hnamed _ (List.mem_map_of_mem himported)
  have hstatement : Imports.namedStatement "model.Status" = ⟨"model.status", ["Status"]⟩ := by
    have horigin : Name.modulePath "model.Status" = "model.status" ∧
        Name.className "model.Status" = "Status" := by
      decide +kernel
    rw [Imports.namedStatement, horigin.1, horigin.2]
  rw [hstatement] at hmodule hclass hpath
  have hfile : orderOptions.outputRoot.join (Name.slashed "model.status" ++ ".py") =
      ⟨"out/model/status.py"⟩ := by
    decide +kernel
  rw [hpath, hfile] at hwritten
  exact ⟨generation', rfl, hwritten, m.type.name, hname, hmodule,
    (List.singleton_inj.1 hclass).symm⟩

end Generation

end AvroBindings
