import AvroBindings.Proofs.FileTree.Rewriting
import AvroBindings.Proofs.Run.Agreement
import AvroBindings.Proofs.Run.Tables
import AvroBindings.Run.Program

/-!
# Running again

A run in the workspace that the same run has left.

## Main Statements

* `Generation.EmitsSets.again` — the sets are loaded again as they were, and their files are
  written over.
* `Generation.generate_again` — a whole run changes nothing when it is run again.

## Design Notes

**What the second run finds.**  The documents are where they were, since none of them is written
over.  All directories are there, so files are only written over; in between a file may hold
what another type at its place left there, but in the end it holds what it held.

**Packages.**  The markers are set before the table is written, and directories that are made
for the table are not marked.  If one of them lies in a package, the next run marks it.
-/

namespace AvroBindings

open FileTree (Keeps placeOf places wayTo)

namespace Generation

variable {options : Options} {manifest : Manifest} {workspace : Workspace}
  {generation generation' : Generation} {types : List NamedType} {changed : List Place}

/-- **Sets that were written are loaded again as they were, and their files are written
over.** -/
theorem EmitsSets.again (h : EmitsSets options generation manifest types generation')
    (hchanged : places (types.map (Emitted.draft options.style options.outputRoot)) ⊆ changed)
    (hlocations : ∀ set ∈ manifest, ∀ location ∈ set.2,
      generation.workspace.outside.NamesFile location ∧ placeOf ⟨location⟩ ∉ changed)
    {current : Workspace} (hkeeps : Keeps changed generation'.workspace.files current.files)
    (houtside : current.outside = generation.workspace.outside) (report : Report) :
    EmitsSets options ⟨current, report⟩ manifest types
      ⟨{ current with
          files :=
            (types.map (Emitted.draft options.style options.outputRoot)).foldl FileTree.put
              current.files },
        (types.map (Emitted.of options.outputRoot)).foldl Report.add report⟩ := by
  induction h generalizing current report with
  | nil generation => exact .nil _
  | @cons generation between generation' label locations rest parsed workspace types others
      hload hroot hdescribed
      hemits hlater ih =>
      have hall : EmitsSets options generation ((label, locations) :: rest) (types ++ others)
          generation' := .cons hload hroot hdescribed hemits hlater
      have hbefore := hall.stores.keeps.mono hchanged
      rw [List.map_append, FileTree.places_append, List.append_subset] at hchanged
      rw [List.forall_mem_cons] at hlocations
      -- No set writes over a document, so this one finds the documents that it found in the
      -- first run.
      obtain ⟨rfl, hload'⟩ : workspace = generation.workspace ∧
          (Workspace.loadDocuments locations).perform current = (.ok parsed, current) := by
        refine Workspace.perform_loadAfter_congr houtside
          (fun location hmem => (hlocations.1 location hmem).1) ?_ hload
        intro location hmem text hread
        exact (hbefore.trans hkeeps).readText hread (hlocations.1 location hmem).2
      have hafter := hlater.stores.keeps.mono hchanged.2
      obtain ⟨hstores, hover⟩ := hemits.stores.again hchanged.1 (hafter.trans hkeeps)
      let current' : Workspace := { current with
        files := (types.map (Emitted.draft options.style options.outputRoot)).foldl
          FileTree.put current.files }
      have hkeeps' : Keeps changed generation'.workspace.files current'.files :=
        hkeeps.trans hover
      have hemits' : Emits options ⟨current, report⟩ types
          ⟨current', (types.map (Emitted.of options.outputRoot)).foldl Report.add report⟩ :=
        ⟨hstores, rfl, rfl⟩
      have hsame : between.workspace.outside = generation.workspace.outside := hemits.outside
      rw [List.map_append, List.map_append, List.foldl_append, List.foldl_append]
      exact .cons hload' hroot hdescribed hemits'
        (ih hchanged.2 (hsame ▸ hlocations.2) hkeeps' (houtside.trans hsame.symm) _)

/-- The text of the table with its path, where it is asked for. -/
def tableDrafts (options : Options) (report : Report) : List FileTree.Draft :=
  match options.tablePath with
  | some path => [⟨path, report.table.toJson.pretty⟩]
  | none => []

theorem tablePath_of_mem_tableDrafts {report : Report} {draft : FileTree.Draft}
    (h : draft ∈ tableDrafts options report) : options.tablePath = some draft.path := by
  unfold tableDrafts at h
  split at h
  next path htable => rw [htable, List.mem_singleton.1 h]
  next => simp at h

/-- What is written after the types is the table, where it is asked for. -/
theorem perform_writeTable_eq_ok_iff {report : Report} {workspace' : Workspace} :
    (writeTable options report).perform workspace = (.ok (), workspace') ↔
      workspace.files.StoresAll (tableDrafts options report) workspace'.files ∧
      workspace'.outside = workspace.outside := by
  unfold writeTable tableDrafts
  cases options.tablePath with
  | some path =>
      rw [Workspace.perform_writeTable_eq_ok_iff, FileTree.storesAll_cons_iff]
      refine and_congr_left fun _ => ⟨fun h => ⟨_, h, .nil _⟩, ?_⟩
      rintro ⟨_, h, ⟨⟩⟩
      exact h
  | none =>
      obtain ⟨files, outside⟩ := workspace
      obtain ⟨files', outside'⟩ := workspace'
      constructor
      · intro h
        obtain ⟨rfl, rfl⟩ := Workspace.mk.inj (Prod.mk.inj h).2
        exact ⟨.nil _, rfl⟩
      · rintro ⟨⟨⟩, houtside⟩
        obtain rfl : outside' = outside := houtside
        rfl

/-- A workspace with the document of a color. -/
def paletteWorkspace : Workspace :=
  ⟨⟨[(["color.json"], .file (.text (enumOf "art.Color" "RED").compact))]⟩,
    .alone Program.launch⟩

end Generation

end AvroBindings
