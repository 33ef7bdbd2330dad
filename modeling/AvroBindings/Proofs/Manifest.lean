import AvroBindings.CommandLine
import AvroBindings.Proofs.Entries
import AvroBindings.Proofs.Run.GivenUp

/-!
# Manifests of files

Which of the files of a command line are loaded: each stands in a set of its own, but the set is
named for the last part of the path, and of files with one name only the last is kept.

## Main Definitions

* `Manifest.locations` — all locations of a manifest, in order.

## Main Statements

* `Manifest.mem_locations_ofFiles_iff` — which files are kept.
* `Manifest.locations_ofFiles_eq_iff` — when all files are.
* `Manifest.loaded_ofFiles` — which files a run with files loads, and in which order.

## Design Notes

**Places.**  A file that has the name of an earlier one stands in the place of that one, before
files that come between the two on the command line.
-/

namespace AvroBindings

namespace Manifest

variable {files : List String}

/-- All locations of a manifest, set by set. -/
def locations (manifest : Manifest) : List String := manifest.flatMap Prod.snd

/-- Every set of a manifest of files has one file, and its name. -/
theorem exists_file_of_mem_ofFiles {set : String × List String} (h : set ∈ ofFiles files) :
    ∃ file ∈ files, set = (fileName file, [file]) := by
  obtain ⟨file, hfile, rfl⟩ := List.mem_map.1 (Entries.mem_of_mem_ofPairs h)
  exact ⟨file, hfile, rfl⟩

/-- The sets of a manifest of files stand in the order in which the names of files first
occur. -/
theorem keys_ofFiles (files : List String) :
    Entries.keys (ofFiles files) = (files.map fileName).eraseDups := by
  rw [ofFiles, Entries.keys_ofPairs, Entries.keys, List.map_map]
  rfl

/-- The names of the files that are kept are those of the sets. -/
theorem map_fileName_locations (files : List String) :
    (locations (ofFiles files)).map fileName = Entries.keys (ofFiles files) := by
  -- For the induction any sets of single files will do, whichever way they came about.
  have hsets : ∀ sets : Manifest,
      (∀ set ∈ sets, ∃ file ∈ files, set = (fileName file, [file])) →
      (locations sets).map fileName = Entries.keys sets := by
    intro sets h
    induction sets with
    | nil => rfl
    | cons set rest ih =>
        rw [List.forall_mem_cons] at h
        obtain ⟨⟨file, -, rfl⟩, hrest⟩ := h
        rw [Entries.keys_cons, ← ih hrest]
        rfl
  exact hsets _ fun set => exists_file_of_mem_ofFiles

/-- No file is loaded twice. -/
theorem nodup_locations_ofFiles (files : List String) : (locations (ofFiles files)).Nodup := by
  apply List.Nodup.of_map fileName
  rw [map_fileName_locations]
  exact Entries.keys_nodup_ofPairs _

/-- **A file is kept exactly if no later one has its name.** -/
theorem mem_locations_ofFiles_iff {file : String} :
    file ∈ locations (ofFiles files) ↔
      ∃ before after, files = before ++ file :: after ∧
        ∀ later ∈ after, fileName later ≠ fileName file := by
  have hset : file ∈ locations (ofFiles files) ↔ (fileName file, [file]) ∈ ofFiles files := by
    rw [locations, List.mem_flatMap]
    constructor
    · rintro ⟨set, hset, hfile⟩
      obtain ⟨file', -, rfl⟩ := exists_file_of_mem_ofFiles hset
      obtain rfl := List.mem_singleton.1 hfile
      exact hset
    · intro hset
      exact ⟨_, hset, List.mem_singleton_self file⟩
  rw [hset, ofFiles, Entries.mem_ofPairs_map_iff]
  constructor
  · rintro ⟨before, last, after, hsplit, hpair, hlater⟩
    obtain rfl := List.singleton_inj.1 (Prod.mk.inj hpair).2
    exact ⟨before, after, hsplit, hlater⟩
  · rintro ⟨before, after, hsplit, hlater⟩
    exact ⟨before, file, after, hsplit, rfl, hlater⟩

/-- **All files are kept, in their order, exactly if no two have one name.** -/
theorem locations_ofFiles_eq_iff :
    locations (ofFiles files) = files ↔ (files.map fileName).Nodup := by
  constructor
  · intro heq
    rw [← heq, map_fileName_locations]
    exact Entries.keys_nodup_ofPairs _
  · intro hnodup
    have hkeys : (Entries.keys (files.map fun file => (fileName file, [file]))).Nodup := by
      rw [Entries.keys, List.map_map]
      exact hnodup
    rw [ofFiles, Entries.ofPairs_of_nodup hkeys, locations, List.flatMap_map]
    exact List.flatMap_singleton' files

/-! ## Runs over files -/

/-- **A run with files writes the sets of their manifest**, and then does what remains; or it is
given up at one of the sets, and that is how it ends. -/
theorem execute_of_files {settings : CommandLine} (hordered : settings.ordered = none)
    (generation : Generation) :
    (∃ types reached,
      Generation.EmitsSets settings.options generation (ofFiles settings.files) types reached ∧
        settings.execute.perform generation =
          (Generation.finish settings.options).perform reached) ∨
    ∃ types failing error generation',
      Generation.GivesUp settings.options (ofFiles settings.files) generation types failing
          error generation' ∧
        settings.execute.perform generation = (.error error, generation') := by
  have hexecute : settings.execute =
      Generation.generate settings.options (ofFiles settings.files) := by
    unfold CommandLine.execute
    rw [hordered]
    rfl
  rw [hexecute, Generation.generate, Action.perform_bind]
  rcases hsets : (Generation.emitSets settings.options (ofFiles settings.files)).perform
    generation with ⟨error | ⟨⟩, reached⟩
  · obtain ⟨types, failing, hgivesUp⟩ := Generation.emitSets_eq_error_iff.1 hsets
    exact .inr ⟨types, failing, error, reached, hgivesUp, rfl⟩
  · obtain ⟨types, hemits⟩ := Generation.emitSets_eq_ok_iff.1 hsets
    exact .inl ⟨types, reached, hemits, rfl⟩

/-- **Which files of a list are loaded.**  Each set of the manifest is for one file and has its
name, and the sets stand in the order in which the names first occur.  A file is in the manifest
exactly if no later file has its name, and then once; all are there in their order exactly if no
two have one name.  A run with the files loads and writes the sets of this manifest, each once
and in order, before it comes to the markers, the formatter and the table; or it is given up at
one of the sets, all sets before that one loaded and written. -/
theorem loaded_ofFiles (files : List String) :
    (∀ set ∈ ofFiles files, ∃ file ∈ files, set = (fileName file, [file])) ∧
    Entries.keys (ofFiles files) = (files.map fileName).eraseDups ∧
    (∀ file, file ∈ locations (ofFiles files) ↔
      ∃ before after, files = before ++ file :: after ∧
        ∀ later ∈ after, fileName later ≠ fileName file) ∧
    (locations (ofFiles files)).Nodup ∧
    (locations (ofFiles files) = files ↔ (files.map fileName).Nodup) ∧
    ∀ settings : CommandLine, settings.ordered = none → settings.files = files →
      ∀ generation,
        (∃ types reached,
          Generation.EmitsSets settings.options generation (ofFiles files) types reached ∧
            settings.execute.perform generation =
              (Generation.finish settings.options).perform reached) ∨
        ∃ types failing error generation',
          Generation.GivesUp settings.options (ofFiles files) generation types failing error
              generation' ∧
            settings.execute.perform generation = (.error error, generation') := by
  refine ⟨fun set => exists_file_of_mem_ofFiles, keys_ofFiles files,
    fun file => mem_locations_ofFiles_iff, nodup_locations_ofFiles files,
    locations_ofFiles_eq_iff, ?_⟩
  rintro settings hordered rfl generation
  exact execute_of_files hordered generation

/-- The settings of a command line with two files of different names, and a formatter that is no
program. -/
def colorSettings : CommandLine where
  files := ["red.json", "blue.json"]
  ordered := none
  style := .dataclass
  formatted := true
  formatter := "whiten"
  lead := ""
  outputRoot := ⟨"out"⟩
  tablePath := none

/-- Two files of different names are both loaded, each in a set of its own, although the run
fails in the end. -/
theorem loaded_ofFiles_colors :
    ∃ types reached,
      Generation.EmitsSets colorSettings.options (.start Generation.colorWorkspace)
        [("red.json", ["red.json"]), ("blue.json", ["blue.json"])] types reached ∧
      (colorSettings.execute.perform (.start Generation.colorWorkspace)).1.isOk = false ∧
      locations (ofFiles colorSettings.files) = colorSettings.files := by
  obtain ⟨-, -, -, -, hall, hruns⟩ := loaded_ofFiles colorSettings.files
  have hloads :
      ((Generation.emitSets colorSettings.options (ofFiles colorSettings.files)).perform
      (.start Generation.colorWorkspace)).1.isOk = true := by
    decide +kernel
  have hfails : (colorSettings.execute.perform (.start Generation.colorWorkspace)).1.isOk =
      false := by
    decide +kernel
  rcases hruns colorSettings rfl rfl (.start Generation.colorWorkspace) with
    ⟨types, reached, hemits, -⟩ | ⟨types, failing, error, generation', hgivesUp, -⟩
  · exact ⟨types, reached, hemits, hfails, hall.2 (by decide)⟩
  · -- The sets are not where the run is given up.
    rw [Generation.emitSets_eq_error_iff.2 ⟨types, failing, hgivesUp⟩] at hloads
    exact absurd hloads (by simp [Except.isOk, Except.toBool])

/-- Of two files that differ in their directories only, the first is not loaded. -/
theorem ofFiles_loses_first :
    ["a/x.avsc", "b/x.avsc"].Nodup ∧
      ofFiles ["a/x.avsc", "b/x.avsc"] = [("x.avsc", ["b/x.avsc"])] ∧
      locations (ofFiles ["a/x.avsc", "b/x.avsc"]) ≠ ["a/x.avsc", "b/x.avsc"] := by
  decide

end Manifest

end AvroBindings
