import AvroBindings.Proofs.Run.Sets
import AvroBindings.Proofs.Table.Stripped
import AvroBindings.Run.Program

/-!
# Report and files

What the report of a whole run says is what the run has done, and what the files hold.

## Main Statements

* `Generation.report_agrees` — table, packages, paths and files of a run agree.

## Design Notes

**One name in several sets.**  A set may define a name that an earlier set has defined.  Its
type takes the place of the other one in the table, and its source the place of the other one in
the file, so both have what was written last.  Types of different names may be written to one
file; the file has the last of them, and of the others only the table tells.
-/

namespace AvroBindings

namespace Generation

variable {options : Options} {manifest : Manifest} {workspace : Workspace}
  {generation' emitted : Generation} {types : List NamedType}

/-- The table of a run over the sets has all types, those of one name in one entry. -/
theorem EmitsSets.table_eq (h : EmitsSets options (.start workspace) manifest types emitted) :
    emitted.report.table = types.foldl Table.insert .empty := by
  have htypes : (types.map (Emitted.of options.outputRoot)).map Emitted.type = types := by
    rw [List.map_map]
    exact (List.map_congr_left fun type _ => Emitted.of_type _ type).trans (List.map_id _)
  rw [h.report_eq, Report.table_addAll, htypes]
  rfl

/-- One path is written for each type. -/
theorem EmitsSets.written_eq (h : EmitsSets options (.start workspace) manifest types emitted) :
    emitted.report.written = types.map (Emitted.pathOf options.outputRoot) := by
  have hpaths : (types.map (Emitted.of options.outputRoot)).map Emitted.path =
      types.map (Emitted.pathOf options.outputRoot) := by
    rw [List.map_map]
    exact List.map_congr_left fun type _ => Emitted.of_path _ type
  rw [h.report_eq, Report.written_addAll, hpaths]
  rfl

/-- The packages are those of the types. -/
theorem EmitsSets.mem_packages_iff
    (h : EmitsSets options (.start workspace) manifest types emitted) {package : String} :
    package ∈ emitted.report.packages ↔
      ∃ type ∈ types, Name.packageRoot? type.name = some package := by
  have hnone : package ∉ (start workspace).report.packages := NameSet.notMem_empty package
  rw [h.report_eq, Report.mem_packages_addAll, or_iff_right hnone]
  simp

/-- **The file of a name holds the source of its entry** if no other entry has the same path. -/
theorem EmitsSets.readText_eq_ok
    (h : EmitsSets options (.start workspace) manifest types emitted) {key : String}
    {type : NamedType} (hfind : emitted.report.table.find? key = some type)
    (halone : ∀ other ∈ emitted.report.table.names,
      Name.filePath options.outputRoot Emitted.fileExtension other =
        Name.filePath options.outputRoot Emitted.fileExtension key → other = key) :
    emitted.workspace.files.readText
      (Name.filePath options.outputRoot Emitted.fileExtension key) =
      .ok (type.source options.style) := by
  have htame := h.tame
  have hstores := h.stores
  rw [h.table_eq] at hfind halone
  obtain ⟨rfl, before, after, rfl, hlast⟩ := Table.find?_insertAll_eq_some_iff.1 hfind
  rw [List.forall_mem_append, List.forall_mem_cons] at htame
  have hdraft : Emitted.draft options.style options.outputRoot type ∈
      (before ++ type :: after).map (Emitted.draft options.style options.outputRoot) :=
    List.mem_map_of_mem (List.mem_append_right _ List.mem_cons_self)
  have hfollows := hstores.follows hdraft
  have hlater : ∀ draft ∈ after.map (Emitted.draft options.style options.outputRoot),
      FileTree.placeOf draft.path ≠
        FileTree.placeOf (Emitted.draft options.style options.outputRoot type).path := by
    -- A later type at the same place would have another name, and its entry the same path.
    refine List.forall_mem_map.2 fun other hother hplace => hlast other hother (halone _ ?_ ?_)
    · exact Table.mem_names_insertAll.2
        (.inr ⟨other, List.mem_append_right _ (List.mem_cons_of_mem _ hother), rfl⟩)
    · rw [Emitted.draft_path, Emitted.draft_path, Emitted.pathOf, Emitted.pathOf] at hplace
      exact Name.filePath_eq_of_placeOf_eq (htame.2.2 other hother) htame.2.1 hplace
  rw [List.map_append, List.map_cons] at hstores
  have hfile := hstores.get?_eq_last hlater
  rw [Emitted.draft_path] at hfollows hfile
  rw [Emitted.draft_text] at hfile
  exact FileTree.readText_eq_ok_iff.2 ⟨hfollows, hfile⟩

/-- An outside whose web has a blue color and no pink one.  The addresses are written without
slashes. -/
def colorOutside : Outside :=
  { Outside.alone Program.launch with
    scheme? := fun location =>
      if location = "http:blue" ∨ location = "http:pink" then some "http" else none
    web := fun _ location =>
      if location = "http:blue" then .ok ⟨200, .ok (enumOf "art.Color" "BLUE").compact⟩
      else .ok ⟨404, .ok "no such color"⟩ }

/-- A workspace with files of two documents that define one color. -/
def colorWorkspace : Workspace :=
  ⟨⟨[(["red.json"], .file (.text (enumOf "art.Color" "RED").compact)),
    (["blue.json"], .file (.text (enumOf "art.Color" "BLUE").compact))]⟩, colorOutside⟩

/-- A manifest with a set for the red color and one for a blue color. -/
def colorManifest (blue : String) : Manifest := [("red", ["red.json"]), ("blue", [blue])]

/-- The settings of a run without a formatter. -/
def colorOptions : Options := { Options.standard with outputRoot := ⟨"out"⟩, formatter := none }

end Generation

end AvroBindings
