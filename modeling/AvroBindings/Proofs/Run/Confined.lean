import AvroBindings.Proofs.FileTree.Proper
import AvroBindings.Proofs.Run.Interrupted

/-!
# Where a run writes

A run writes its files below the output directory, whatever the documents say and whatever is
taken off their names.

## Main Definitions

* `Name.IsSegment` — a text can be a segment of a name.
* `Emitted.IsTypePath` — a path that the file of a type can have.
* `FileTree.IsBelow`, `FileTree.ChangesBelow` — a place is below a path; all that is changed is.
* `Generation.typed`, `Generation.marked` — a run once its types are written, and once its
  packages are marked.
* `Generation.afterMarking` — what remains to be done then.

## Main Statements

* `Generation.generate_stages` — a run stops once it has marked its packages, or goes on from
  there.
* `Generation.exists_storesAll_typed`, `Generation.exists_creates_marked` — what has been done
  until then.
* `Generation.generate_confined` — where the types and the markers of a run are written.

## Design Notes

**What is claimed of a run.**  The formatter is a command of its own and the table has a path of
its own, so both can write anywhere.  What is told here is told of the run up to them, whether
it gets there or is given up before.

**Names of directories.**  The directories that are marked are those that are found.  So it
rests on the names of directories being names that a marker is below the output directory.
-/

namespace AvroBindings

open FileTree (IsEntryName OpensAmong placeOf reached startOf wayTo)

/-- **A place is below a path**: names of entries lead to it from there. -/
def FileTree.IsBelow (root : Path) (place : Place) : Prop :=
  ∃ names, names ≠ [] ∧ (∀ name ∈ names, IsEntryName name) ∧ place = placeOf root ++ names

/-! ## Files of types -/

/-- **A text can be a segment of a name**: it is not empty and has ASCII letters, digits and
underscores only. -/
def Name.IsSegment (text : String) : Prop := text ≠ "" ∧ ∀ c ∈ text.toList, isPart c = true

theorem Name.IsSegment.isEntryName {text : String} (h : IsSegment text) : IsEntryName text :=
  ⟨⟨h.1, (notMem_of_isPart h.2).2⟩, plain_of_isPart h.1 h.2⟩

/-- A package that a tame name has is a segment. -/
theorem Name.IsTame.isSegment_of_packageRoot? {name package : String} (h : IsTame name)
    (hpackage : packageRoot? name = some package) : IsSegment package := by
  rw [packageRoot?] at hpackage
  split at hpackage
  next c rest hhead =>
    obtain rfl := Option.some.inj hpackage
    have hpiece := h.space.isPart_of_mem_segments (List.mem_of_mem_head? hhead)
    refine ⟨?_, by rwa [String.toList_ofList]⟩
    rw [ne_eq, ← String.toList_eq_nil_iff, String.toList_ofList]
    exact List.cons_ne_nil _ _
  next => contradiction

namespace Emitted

variable {root path : Path}

/-- **A path that the file of a type can have**: segments of names lead to it from the root, and
what stands before the ending of its own name, if anything, has the same characters. -/
def IsTypePath (root path : Path) : Prop :=
  ∃ (packages : List String) (stem : String), (∀ package ∈ packages, Name.IsSegment package) ∧
    (∀ c ∈ stem.toList, Name.isPart c = true) ∧
    path = (packages.foldl Path.join root).join (stem ++ ".py")

theorem isTypePath_pathOf (root : Path) {type : NamedType} (h : Name.IsTame type.name) :
    IsTypePath root (pathOf root type) := by
  refine ⟨Name.packages type.name, Name.fileStem type.name, h.isPart_of_mem_packages,
    h.isPart_of_mem_fileStem, ?_⟩
  have hending : "." ++ fileExtension = ".py" := by decide
  rw [pathOf, Name.filePath, String.append_assoc, hending]

/-- **The file of a type is below the root**, and so are the directories on the way to it that
the way to the root does not pass. -/
theorem IsTypePath.below (h : IsTypePath root path) :
    FileTree.IsBelow root (placeOf path) ∧
      ∀ place ∈ wayTo path, place ∈ reached (startOf root) root.pieces ∨
      FileTree.IsBelow root place := by
  obtain ⟨packages, stem, hpackages, hstem, rfl⟩ := h
  have hfile : IsEntryName (stem ++ ".py") := by
    -- The name of a file ends in a letter.
    have hlast : (stem ++ ".py").toList.getLast? = some 'y' := by simp
    have hslash : '/' ∉ (stem ++ ".py").toList := by
      rw [String.toList_append, List.mem_append, not_or]
      exact ⟨(Name.notMem_of_isPart hstem).2, by decide⟩
    refine ⟨⟨?_, hslash⟩, ?_, ?_⟩
    · intro heq
      simp [heq] at hlast
    · rintro (heq | heq) <;> simp [heq] at hlast
    · intro heq
      simp [heq] at hlast
  have hentries : ∀ name ∈ packages ++ [stem ++ ".py"], IsEntryName name :=
    List.forall_mem_append.2 ⟨fun package hpackage => (hpackages package hpackage).isEntryName,
      List.forall_mem_singleton.2 hfile⟩
  have hnames : ∀ name ∈ packages ++ [stem ++ ".py"], Path.IsName name :=
    fun name hname => (hentries name hname).1
  rw [Path.foldl_join (fun package hpackage => (hpackages package hpackage).isEntryName.1)
    hfile.1]
  have hplain : ∀ name ∈ packages ++ [stem ++ ".py"], ¬Path.IsIdle name ∧ name ≠ ".." :=
    fun name hname => (hentries name hname).2
  refine ⟨⟨_, by simp, hentries, FileTree.placeOf_join hnames hplain (by simp)⟩,
    fun place hplace => ?_⟩
  rw [FileTree.mem_wayTo_join hnames fun package hpackage =>
    hplain package (List.mem_append_left _ hpackage)] at hplace
  rcases hplace with hroot | ⟨inner, hinner, rfl⟩
  · exact .inl (FileTree.mem_reached.2 (.inl hroot))
  · rcases eq_or_ne inner [] with rfl | hne
    · exact .inl (FileTree.mem_reached.2 (.inr (List.append_nil _)))
    · exact .inr ⟨inner, hne,
        fun name hname => (hpackages name (hinner.subset hname)).isEntryName, rfl⟩

end Emitted

/-! ## What is changed -/

namespace FileTree

variable {tree next tree' : FileTree} {root : Path}

/-- **All that is changed is below a path**, or is a directory that is made on the way to it. -/
def ChangesBelow (root : Path) (tree tree' : FileTree) : Prop :=
  ∀ place, tree'.get? place = tree.get? place ∨ IsBelow root place ∨
    place ∈ reached (startOf root) root.pieces ∧ tree.get? place = none ∧
    tree'.get? place = some .directory

namespace ChangesBelow

theorem trans (h : ChangesBelow root tree next) (h' : ChangesBelow root next tree') :
    ChangesBelow root tree tree' := by
  intro place
  rcases h' place with hsame | hbelow | ⟨hway, hnone, hmade⟩
  · rw [hsame]
    exact h place
  · exact .inr (.inl hbelow)
  · rcases h place with hsame | hbelow | ⟨-, -, hmade'⟩
    · exact .inr (.inr ⟨hway, hsame ▸ hnone, hmade⟩)
    · exact .inr (.inl hbelow)
    · rw [hnone] at hmade'
      contradiction

end ChangesBelow

/-- Directories that are made for the file of a type change nothing else. -/
theorem OpensAmong.changesBelow {path : Path} (hpath : Emitted.IsTypePath root path)
    (h : OpensAmong (wayTo path) tree tree') : ChangesBelow root tree tree' := by
  intro place
  rcases h place with hsame | ⟨hway, hnone, hmade⟩
  · exact .inl hsame
  · rcases hpath.below.2 place hway with hroot | hbelow
    · exact .inr (.inr ⟨hroot, hnone, hmade⟩)
    · exact .inr (.inl hbelow)

/-- Storing the files of types changes nothing else. -/
theorem StoresAll.changesBelow {drafts : List Draft} (h : tree.StoresAll drafts tree')
    (hpaths : ∀ draft ∈ drafts, Emitted.IsTypePath root draft.path) :
    ChangesBelow root tree tree' := by
  intro place
  rcases h.get?_cases place with
    hsame | ⟨draft, hdraft, rfl⟩ | ⟨⟨draft, hdraft, hway⟩, hnone, hdirectory⟩
  · exact .inl hsame
  · exact .inr (.inl (hpaths draft hdraft).below.1)
  · rcases (hpaths draft hdraft).below.2 place hway with hroot | hbelow
    · exact .inr (.inr ⟨hroot, hnone, hdirectory⟩)
    · exact .inr (.inl hbelow)

end FileTree

namespace Generation

variable {options : Options} {manifest : Manifest} {workspace : Workspace}

/-! ## Stages of a run -/

/-- A run once its types are written, or where it was given up before. -/
def typed (options : Options) (manifest : Manifest) (workspace : Workspace) : Generation :=
  ((emitSets options manifest).perform (.start workspace)).2

/-- The workspace of a run once its packages are marked, or where it was given up before. -/
def marked (options : Options) (manifest : Manifest) (workspace : Workspace) : Workspace :=
  match (emitSets options manifest).perform (.start workspace) with
  | (.ok (), generation) =>
    ((Marker.ensure options.outputRoot generation.report.packages).perform
      generation.workspace).2
  | (.error _, generation) => generation.workspace

/-- What remains to be done once the packages are marked. -/
def afterMarking (options : Options) (report : Report) : Action Workspace Unit := do
  if let some command := options.formatter then
    format command options.outputRoot report.packages.names
  if let some path := options.tablePath then
    Workspace.writeTable report.table path

/-- An action in the workspace of a run leaves the workspace that it leaves on its own. -/
theorem workspace_perform_inWorkspace {α : Type} (action : Action Workspace α)
    (generation : Generation) :
    ((inWorkspace action).perform generation).2.workspace =
      (action.perform generation.workspace).2 := by
  rcases hrun : action.perform generation.workspace with ⟨error | a, next⟩
  · rw [perform_inWorkspace_of_error hrun]
  · have hperform : (inWorkspace action).perform generation =
        (.ok a, ⟨next, generation.report⟩) :=
      perform_inWorkspace_eq_ok_iff.2 ⟨hrun, rfl⟩
    rw [hperform]

/-- What remains to be done once all types are written is done in the workspace. -/
theorem workspace_perform_finish (generation : Generation) :
    ((finish options).perform generation).2.workspace =
      ((finishReport options generation.report).perform generation.workspace).2 := by
  rw [finish, Action.perform_bind, Action.perform_get]
  exact workspace_perform_inWorkspace _ _

/-- **A run stops once its packages are marked, or goes on from there** with the formatter and
the table. -/
theorem generate_stages (options : Options) (manifest : Manifest) (workspace : Workspace) :
    ((generate options manifest).perform (.start workspace)).2.workspace =
      marked options manifest workspace ∨
      ((generate options manifest).perform (.start workspace)).2.workspace =
        ((afterMarking options (typed options manifest workspace).report).perform
          (marked options manifest workspace)).2 := by
  rcases hsets : (emitSets options manifest).perform (.start workspace) with
    ⟨error | ⟨⟩, generation⟩
  · rw [generate, Action.perform_bind, marked, hsets]
    exact .inl rfl
  · have htyped : typed options manifest workspace = generation := by rw [typed, hsets]
    have hmarked : marked options manifest workspace =
        ((Marker.ensure options.outputRoot generation.report.packages).perform
          generation.workspace).2 := by
      rw [marked, hsets]
    have hrun : (generate options manifest).perform (.start workspace) =
        (finish options).perform generation := by
      rw [generate, Action.perform_bind, hsets]
    have hfinish : finishReport options generation.report = (do
        let _ ← Marker.ensure options.outputRoot generation.report.packages
        afterMarking options generation.report) := rfl
    rw [hrun, htyped, hmarked, workspace_perform_finish, hfinish, Action.perform_bind]
    rcases (Marker.ensure options.outputRoot generation.report.packages).perform
      generation.workspace with
      ⟨error | created, next⟩
    · exact .inl rfl
    · exact .inr rfl

/-- **What has been done once the types are written**, or where that was given up: files of
types are stored one after another, and in the end directories may have been made for one
more. -/
theorem exists_storesAll_typed (options : Options) (manifest : Manifest)
    (workspace : Workspace) :
    ∃ drafts files, workspace.files.StoresAll drafts files ∧
      (∀ draft ∈ drafts, Emitted.IsTypePath options.outputRoot draft.path) ∧
      ((typed options manifest workspace).workspace.files = files ∨
        ∃ path, Emitted.IsTypePath options.outputRoot path ∧
          OpensAmong (wayTo path) files
            (typed options manifest workspace).workspace.files) := by
  obtain ⟨types, htame, -, files, hstores, hend⟩ :=
    onlyWrites_emitSets options manifest (.start workspace)
  refine ⟨_, files, hstores, List.forall_mem_map.2 fun type htype => ?_, hend.imp_right ?_⟩
  · rw [Emitted.draft_path]
    exact Emitted.isTypePath_pathOf _ (htame type htype)
  · rintro ⟨type, -, -, -, htame', hopens⟩
    exact ⟨_, Emitted.isTypePath_pathOf _ htame', hopens⟩

/-- The packages that a run reports are segments of names. -/
theorem isSegment_of_mem_packages {α : Type} {generation : Generation} {types : List NamedType}
    {outcome : Except RunError α}
    (h : Writes options (.start workspace) types outcome generation) {package : String}
    (hpackage : package ∈ generation.report.packages) : Name.IsSegment package := by
  rw [h.report, Report.mem_packages_addAll] at hpackage
  rcases hpackage with hstart | ⟨emitted, hemitted, hroot⟩
  · simp [start, Report.empty] at hstart
  · obtain ⟨type, htype, rfl⟩ := List.mem_map.1 hemitted
    exact (h.tame type htype).isSegment_of_packageRoot? hroot

/-- The place of a package is that of its name below the root. -/
theorem placeOf_package (root : Path) {package : String} (h : Name.IsSegment package) :
    placeOf (root.join package) = placeOf root ++ [package] :=
  FileTree.placeOf_join_name root h.isEntryName.1 h.isEntryName.2

/-- **What has been done once the packages are marked**: markers are created in directories at
or below those of packages.  If the directories that stood at first have names, so have
these. -/
theorem exists_creates_marked (options : Options) (manifest : Manifest)
    (workspace : Workspace) :
    ∃ directories, Marker.Creates (typed options manifest workspace).workspace.files directories
        (marked options manifest workspace).files ∧
      ∀ directory ∈ directories, ∃ (package : String) (names : List String),
        Name.IsSegment package ∧
        directory = names.foldl Path.join (options.outputRoot.join package) ∧
        (workspace.files.IsProper → ∀ name ∈ names, IsEntryName name) := by
  obtain ⟨types, hwrites⟩ := onlyWrites_emitSets options manifest (.start workspace)
  rw [marked, typed]
  generalize (emitSets options manifest).perform (.start workspace) = outcome at hwrites
  obtain ⟨error | ⟨⟩, generation⟩ := outcome
  · exact ⟨[], .nil _, by simp⟩
  · dsimp only at hwrites ⊢
    rcases hmark : (Marker.ensure options.outputRoot generation.report.packages).perform
      generation.workspace with
      ⟨result, next⟩
    obtain ⟨directories, hcreates, hfound⟩ := Marker.exists_creates_of_ensure hmark
    refine ⟨directories, hcreates, fun directory hdirectory => ?_⟩
    obtain ⟨package, hpackage, names, hnames, hpath⟩ := hfound directory hdirectory
    have hsegment := isSegment_of_mem_packages hwrites hpackage
    refine ⟨package, names, hsegment, hpath, fun hproper => ?_⟩
    exact
      ((FileTree.mem_directoriesUnder_iff_isEntryName (hwrites.storesAll.isProper hproper)).1
        hnames).1

/-- A directory that names of entries lead to from a package is below the root. -/
theorem placeOf_packageDirectory (root : Path) {package : String} {names : List String}
    (h : Name.IsSegment package) (hnames : ∀ name ∈ names, IsEntryName name) :
    placeOf (names.foldl Path.join (root.join package)) = placeOf root ++ package :: names := by
  have hentries : ∀ name ∈ package :: names, IsEntryName name :=
    List.forall_mem_cons.2 ⟨h.isEntryName, hnames⟩
  rw [← List.foldl_cons]
  exact FileTree.placeOf_foldl_join hentries

/-- **Where a run writes its types and its markers**, for every manifest, every text that is
taken off the names and every output directory, whether the run succeeds or is given up.  While
the types are written, files of types are stored one after another, each under a path that leads
from the output directory along segments of names to a file with the ending `.py`; if the run is
given up there, directories may be made for one more of them.  Then markers are created, each in
a directory that was there, at or below the directory of a segment in the output directory.  If
directories have names, all that is changed until then is below the output directory, or is a
directory made on the way to it; and the run stops then, or goes on with the formatter and the
table. -/
theorem generate_confined (options : Options) (manifest : Manifest) (workspace : Workspace) :
    (∃ drafts files, workspace.files.StoresAll drafts files ∧
      (∀ draft ∈ drafts, Emitted.IsTypePath options.outputRoot draft.path) ∧
      ((typed options manifest workspace).workspace.files = files ∨
        ∃ path, Emitted.IsTypePath options.outputRoot path ∧
          OpensAmong (wayTo path) files (typed options manifest workspace).workspace.files)) ∧
    (∃ directories,
      Marker.Creates (typed options manifest workspace).workspace.files directories
        (marked options manifest workspace).files ∧
      ∀ directory ∈ directories,
        (typed options manifest workspace).workspace.files.get? (placeOf directory) =
          some .directory ∧
        ∃ (package : String) (names : List String), Name.IsSegment package ∧
          directory = names.foldl Path.join (options.outputRoot.join package)) ∧
    (workspace.files.IsProper →
      FileTree.ChangesBelow options.outputRoot workspace.files
        (marked options manifest workspace).files) ∧
    (((generate options manifest).perform (.start workspace)).2.workspace =
      marked options manifest workspace ∨
      ((generate options manifest).perform (.start workspace)).2.workspace =
        ((afterMarking options (typed options manifest workspace).report).perform
          (marked options manifest workspace)).2) := by
  obtain ⟨drafts, files, hstores, hpaths, hend⟩ :=
    exists_storesAll_typed options manifest workspace
  obtain ⟨directories, hcreates, hfound⟩ := exists_creates_marked options manifest workspace
  refine ⟨⟨drafts, files, hstores, hpaths, hend⟩,
    ⟨directories, hcreates, fun directory hdirectory => ?_⟩, fun hproper => ?_,
    generate_stages options manifest workspace⟩
  · obtain ⟨package, names, hsegment, hpath, -⟩ := hfound directory hdirectory
    exact ⟨hcreates.get?_directory directory hdirectory, package, names, hsegment, hpath⟩
  · have htyped : FileTree.ChangesBelow options.outputRoot files
        (typed options manifest workspace).workspace.files := by
      rcases hend with hsame | ⟨path, hpath, hopens⟩
      · rw [hsame]
        exact fun _ => .inl rfl
      · exact hopens.changesBelow hpath
    refine ((hstores.changesBelow hpaths).trans htyped).trans fun place => ?_
    rcases hcreates.get?_eq place with hsame | ⟨-, -, directory, hdirectory, rfl⟩
    · exact .inl hsame
    · obtain ⟨package, names, hsegment, rfl, hnames⟩ := hfound directory hdirectory
      have hentries : ∀ name ∈ package :: names ++ [Marker.fileName], IsEntryName name :=
        List.forall_mem_append.2 ⟨List.forall_mem_cons.2 ⟨hsegment.isEntryName, hnames hproper⟩,
          List.forall_mem_singleton.2 ⟨Marker.isName_fileName, Marker.plain_fileName⟩⟩
      rw [placeOf_packageDirectory _ hsegment (hnames hproper), List.append_assoc]
      exact .inr (.inl ⟨_, by simp, hentries, rfl⟩)

end Generation

end AvroBindings
