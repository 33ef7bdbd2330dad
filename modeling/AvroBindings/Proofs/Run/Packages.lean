import AvroBindings.Proofs.Run.Confined
import AvroBindings.Proofs.Run.Repetition
import AvroBindings.Run.Program

/-!
# Packages that can be imported

After a run every directory in the namespace of a type has its marker, and markers are put
nowhere else.

## Main Statements

* `FileTree.isDirectory_of_follows_join` — the directories on the way to a file that is joined
  from names.
* `Generation.isDirectory_of_mem_packages` — the directory of every package is there once the
  types are written.
* `Generation.packages_marked` — where markers stand after a run, and what was in those that
  stood before.

## Design Notes

**Files called like markers.**  A type may be called like a marker, and the table may be asked
for at the place of one.  Both are written like any other file: over a marker that was there,
and also where no package is.

**Directories called like markers.**  A marker is left out where something of its name stands.
Directories of that name can be made on the way to the output directory or to the table.  None
is made for a namespace: no segment has a dot.
-/

namespace AvroBindings

open FileTree (IsEntryName placeOf reached startOf wayTo)

namespace FileTree

variable {tree : FileTree} {root : Path} {names others : List String}

/-- **The directories on the way to a file that is joined from names are there** if its path can
be followed. -/
theorem isDirectory_of_follows_join (hnames : ∀ name ∈ names ++ others, IsEntryName name)
    (hne : names ≠ []) (hbehind : others ≠ [])
    (hfollows : tree.Follows (root.join ("/".intercalate (names ++ others)))) :
    tree.isDirectory (root.join ("/".intercalate names)) = true := by
  have hhead : ∀ parts : List String, (∀ part ∈ parts, IsEntryName part) →
      ("/".intercalate parts).toList.head? ≠ some '/' := fun parts hparts =>
    Path.head?_intercalate_ne fun part hpart => (hparts part hpart).1
  have hfirst : ∀ name ∈ names, IsEntryName name :=
    fun name hname => hnames name (List.mem_append_left _ hname)
  have htext : (root.join ("/".intercalate (names ++ others))).text =
      (root.join ("/".intercalate names)).text ++ "/" ++ "/".intercalate others := by
    rw [Path.join_of_relative (hhead _ hnames), Path.join_of_relative (hhead _ hfirst),
      String.intercalate_append_of_ne_nil hne hbehind]
    simp only [String.append_assoc]
  refine hfollows.isDirectory_of_slash htext ?_
  have hends : EndsInName (root.join ("/".intercalate names)) :=
    endsInName_join (fun name hname => (hfirst name hname).1)
      (fun name hname => (hfirst name hname).2) hne
  obtain ⟨init, last, hpieces, hidle, -⟩ := hends
  exact text_ne_empty_of_isTrimmed (.inr ⟨init, last, hpieces, hidle⟩)

end FileTree

namespace Generation

variable {options : Options} {manifest : Manifest} {workspace : Workspace}
  {generation' emitted : Generation} {types : List NamedType}

/-- **The directories of the namespace of a type are there** once the types are written. -/
theorem EmitsSets.isDirectory (h : EmitsSets options (.start workspace) manifest types emitted)
    {type : NamedType} (htype : type ∈ types) {packages : List String} (hne : packages ≠ [])
    (hinitial : packages <+: Name.packages type.name) :
    emitted.workspace.files.isDirectory (packages.foldl Path.join options.outputRoot) =
      true := by
  have htame := h.tame type htype
  have hfollows := h.stores.follows (List.mem_map_of_mem htype)
  obtain ⟨rest, hrest⟩ := hinitial
  have hentries :
      ∀ name ∈ packages ++ (rest ++ [Name.fileStem type.name ++ "." ++ Emitted.fileExtension]),
      IsEntryName name := by
    rw [← List.append_assoc, hrest]
    exact fun name hname => ⟨Name.isName_of_mem_fileNames htame (by decide) name hname,
      Name.plain_of_mem_fileNames htame name hname⟩
  rw [Emitted.draft_path, Emitted.pathOf, Name.filePath_eq_join _ htame (by decide),
    Name.fileNames, ← hrest, List.append_assoc] at hfollows
  rw [Path.foldl_join_eq
    (fun name hname => (hentries name (List.mem_append_left _ hname)).1) hne]
  exact FileTree.isDirectory_of_follows_join hentries hne (by simp) hfollows

/-- What is left of a full name has its package as the first of its packages, if it has one. -/
theorem head?_packages_of_packageRoot? {full lead package : String}
    (hfull : Name.isFull full = true)
    (hpackage : Name.packageRoot? (Name.stripPrefix lead full) = some package) :
    (Name.packages (Name.stripPrefix lead full)).head? = some package := by
  have htame := (Name.isTame_of_isFull hfull).stripPrefix lead
  rcases Name.stripPrefix_cases hfull lead with hgapless | ⟨rest, -, -, hleft⟩
  · rw [← hgapless.packageRoot?_eq htame, hpackage]
  · cases hdotted : Name.isDotted rest with
    | true =>
        rw [hleft, Name.packageRoot?_cons_dot hdotted] at hpackage
        contradiction
    | false =>
        rw [hleft] at htame hpackage ⊢
        rw [← (Name.isGapless_cons_dot hdotted).packageRoot?_eq htame, hpackage]

/-- **The directory of every package is there** once the types are written, whatever was taken
off their names. -/
theorem EmitsSets.isDirectory_of_mem_packages
    (h : EmitsSets options (.start workspace) manifest types emitted) {package : String}
    (hpackage : package ∈ emitted.report.packages) :
    emitted.workspace.files.isDirectory (options.outputRoot.join package) = true := by
  obtain ⟨type, htype, hroot⟩ := h.mem_packages_iff.1 hpackage
  obtain ⟨full, hfull, hname⟩ := h.exists_full type htype
  rw [hname] at hroot
  obtain ⟨rest, hrest⟩ := List.head?_eq_some_iff.1 (head?_packages_of_packageRoot? hfull hroot)
  have hinitial : [package] <+: Name.packages type.name := by
    rw [hname, hrest]
    exact ⟨rest, rfl⟩
  have hdirectory := h.isDirectory htype (List.cons_ne_nil package []) hinitial
  rwa [List.foldl_cons, List.foldl_nil] at hdirectory

/-- **Every directory in the namespace of a type has its marker** once the packages are marked,
if the types have full names. -/
theorem EmitsSets.stands (h : EmitsSets options (.start workspace) manifest types emitted)
    {type : NamedType} (htype : type ∈ types) (hfull : Name.isFull type.name = true)
    {created : List Path} {marked : Workspace}
    (hmarks : (Marker.ensure options.outputRoot emitted.report.packages).perform
      emitted.workspace = (.ok created, marked))
    {packages : List String} (hne : packages ≠ [])
    (hinitial : packages <+: Name.packages type.name) :
    Marker.Stands marked.files (packages.foldl Path.join options.outputRoot) := by
  have htame := Name.isTame_of_isFull hfull
  obtain ⟨hadds, hsettled⟩ := Marker.adds_of_ensure hmarks
  obtain ⟨package, inner, rfl⟩ := List.exists_cons_of_ne_nil hne
  have hsegments : ∀ name ∈ package :: inner, Name.IsSegment name := fun name hname =>
    htame.isPart_of_mem_packages name (hinitial.subset hname)
  rw [List.forall_mem_cons] at hsegments
  have hentries : ∀ name ∈ inner, IsEntryName name :=
    fun name hname => (hsegments.2 name hname).isEntryName
  have hpackage : package ∈ emitted.report.packages := by
    obtain ⟨rest, hrest⟩ := hinitial
    refine h.mem_packages_iff.2 ⟨type, htype, ?_⟩
    rw [(Name.isGapless_of_isFull hfull).packageRoot?_eq htame, ← hrest]
    rfl
  have hroot : marked.files.get? (placeOf (options.outputRoot.join package)) =
      some .directory :=
    hadds.keeps.directory _
      (FileTree.isDirectory_iff.1 (h.isDirectory_of_mem_packages hpackage)).2
  have hplace : placeOf (options.outputRoot.join package) ++ inner =
      placeOf options.outputRoot ++ package :: inner := by
    rw [placeOf_package _ hsegments.1, List.append_assoc, List.singleton_append]
  refine (hsettled package hpackage).stands hroot
    (FileTree.leadsDown_of_isEntryName hentries) ?_ ?_
  · rw [hplace]
    exact FileTree.isGround_eq_false (List.mem_append_right _ List.mem_cons_self)
      hsegments.1.isEntryName
  · have hdirectory := (FileTree.isDirectory_iff.1 (h.isDirectory htype hne hinitial)).2
    rw [List.foldl_cons, placeOf_packageDirectory _ hsegments.1 hentries] at hdirectory
    rw [hplace]
    exact hadds.keeps.directory _ hdirectory

/-- A place called like a marker is passed on the way to the file of a type only if the way to
the root passes it. -/
theorem mem_reached_of_marker {type : NamedType} (htame : Name.IsTame type.name) {root : Path}
    {place : Place} (hway : place ++ [Marker.fileName] ∈ wayTo (Emitted.pathOf root type)) :
    place ++ [Marker.fileName] ∈ reached (startOf root) root.pieces := by
  rw [Emitted.pathOf, Name.mem_wayTo_filePath root htame] at hway
  rcases hway with hroot | ⟨inner, hinner, hplace⟩
  · exact FileTree.mem_reached.2 (.inl hroot)
  · rcases List.eq_nil_or_concat' inner with rfl | ⟨init, last, rfl⟩
    · exact FileTree.mem_reached.2 (.inr (hplace.trans (List.append_nil _)))
    · -- A segment of a namespace has no dot.
      rw [← List.append_assoc, List.append_singleton_inj] at hplace
      have hmem : last ∈ Name.packages type.name :=
        hinner.subset (List.mem_append_right _ (List.mem_singleton_self _))
      have hpackage := htame.isPart_of_mem_packages last hmem
      rw [← hplace.2] at hpackage
      exact absurd (by decide) (Name.notMem_of_isPart hpackage.2).1

/-- **Where an entry called like a marker can be new after a run.** -/
theorem new_marker_cases (hsets : EmitsSets options (.start workspace) manifest types emitted)
    {created : List Path} {marked : Workspace} {tree' : FileTree}
    (hmarks : (Marker.ensure options.outputRoot emitted.report.packages).perform
      emitted.workspace = (.ok created, marked))
    (hstored : marked.files.StoresAll (tableDrafts options emitted.report) tree')
    (hproper : workspace.files.IsProper) {place : Place} {entry : FileEntry}
    (hnone : workspace.files.get? (place ++ [Marker.fileName]) = none)
    (hentry : tree'.get? (place ++ [Marker.fileName]) = some entry) :
    (∃ package ∈ emitted.report.packages, ∃ names,
      place = placeOf options.outputRoot ++ package :: names) ∨
    (∃ type ∈ types,
      placeOf (Emitted.pathOf options.outputRoot type) = place ++ [Marker.fileName]) ∨
    (∃ path, options.tablePath = some path ∧ placeOf path = place ++ [Marker.fileName]) ∨
    entry = .directory ∧
      (place ++ [Marker.fileName] ∈
        reached (startOf options.outputRoot) options.outputRoot.pieces ∨
        ∃ path, options.tablePath = some path ∧ place ++ [Marker.fileName] ∈ wayTo path) := by
  by_cases htable : ∃ draft ∈ tableDrafts options emitted.report,
      place ++ [Marker.fileName] = placeOf draft.path ∨
        place ++ [Marker.fileName] ∈ wayTo draft.path
  · obtain ⟨draft, hdraft, hplace | hway⟩ := htable
    · exact .inr (.inr (.inl ⟨_, tablePath_of_mem_tableDrafts hdraft, hplace.symm⟩))
    · have hdirectory := hstored.get?_eq_directory hdraft hway
      rw [hentry] at hdirectory
      exact .inr
        (.inr (.inr
          ⟨Option.some.inj hdirectory, .inr ⟨_, tablePath_of_mem_tableDrafts hdraft, hway⟩⟩))
  have huntouched : ∀ draft ∈ tableDrafts options emitted.report,
      place ++ [Marker.fileName] ≠ placeOf draft.path ∧ place ++ [Marker.fileName] ∉
        wayTo draft.path :=
    fun draft hdraft => not_or.1 fun hor => htable ⟨draft, hdraft, hor⟩
  rw [hstored.get?_eq_of_untouched huntouched] at hentry
  obtain ⟨directories, hcreates, hfound⟩ := Marker.exists_creates_of_ensure hmarks
  rcases hcreates.get?_eq (place ++ [Marker.fileName]) with
    hsame | ⟨-, -, directory, hdirectory, hplace⟩
  · rw [hsame] at hentry
    by_cases hwritten : ∃ type ∈ types,
      place ++ [Marker.fileName] = placeOf (Emitted.pathOf options.outputRoot type) ∨
        place ++ [Marker.fileName] ∈ wayTo (Emitted.pathOf options.outputRoot type)
    · obtain ⟨type, htype, hplace | hway⟩ := hwritten
      · exact .inr (.inl ⟨type, htype, hplace.symm⟩)
      · have hdirectory := hsets.stores.get?_eq_directory (List.mem_map_of_mem htype)
          (by rwa [Emitted.draft_path])
        rw [hentry] at hdirectory
        exact .inr
          (.inr (.inr ⟨Option.some.inj hdirectory,
            .inl (mem_reached_of_marker (hsets.tame type htype) hway)⟩))
    · have huntouched : ∀ draft ∈ types.map (Emitted.draft options.style options.outputRoot),
          place ++ [Marker.fileName] ≠ placeOf draft.path ∧ place ++ [Marker.fileName] ∉
            wayTo draft.path := by
        refine List.forall_mem_map.2 fun type htype => not_or.1 fun hor =>
          hwritten ⟨type, htype, ?_⟩
        rwa [Emitted.draft_path] at hor
      rw [hsets.stores.get?_eq_of_untouched huntouched] at hentry
      exact absurd (hnone.symm.trans hentry) (by simp)
  · obtain ⟨package, hpackage, names, hnames, rfl⟩ := hfound directory hdirectory
    obtain ⟨type, htype, hroot⟩ := hsets.mem_packages_iff.1 hpackage
    have hsegment := (hsets.tame type htype).isSegment_of_packageRoot? hroot
    have hentries :=
      ((FileTree.mem_directoriesUnder_iff_isEntryName (hsets.stores.isProper hproper)).1
        hnames).1
    rw [placeOf_packageDirectory _ hsegment hentries] at hplace
    exact .inl ⟨package, hpackage, names, List.append_cancel_right hplace⟩

/-- **Where markers stand after a run** without a formatter, if nothing is taken off the names
or a text that ends in a dot, and directories have names.  Once the types are written, marking
never fails for a directory that is not there.  If the run succeeds, every directory in the
namespace of a type that was emitted is there and has an entry called like a marker.  An entry
of that name that stood before stands as it was, unless the file of a type or the table is
written in its place.  Where none stood one stands only in or below the directory of a package,
at the place of the file of a type or of the table, or as a directory that is made on the way to
the output directory or to the table. -/
theorem packages_marked (hformatter : options.formatter = none)
    (hlead : options.lead = "" ∨ options.lead.toList.getLast? = some '.')
    (hproper : workspace.files.IsProper) :
    (∀ emitted, (emitSets options manifest).perform (.start workspace) = (.ok (), emitted) →
      ∀ path cause,
        ((Marker.ensure options.outputRoot emitted.report.packages).perform
          emitted.workspace).1 ≠
        .error (.walk path cause)) ∧
    ∀ generation',
      (generate options manifest).perform (.start workspace) = (.ok (), generation') →
      ∃ types emitted, EmitsSets options (.start workspace) manifest types emitted ∧
        generation'.report = emitted.report ∧
        (∀ type ∈ types, Name.space type.name = ".".intercalate (Name.packages type.name) ∧
          ∀ packages, packages ≠ [] → packages <+: Name.packages type.name →
            ∃ found, generation'.workspace.files.find
              ((packages.foldl Path.join options.outputRoot).join Marker.fileName) =
                .ok found) ∧
        ∀ place,
          (∀ entry, workspace.files.get? (place ++ [Marker.fileName]) = some entry →
            (∀ type ∈ types,
              placeOf (Emitted.pathOf options.outputRoot type) ≠ place ++ [Marker.fileName]) →
            (∀ path, options.tablePath = some path →
              placeOf path ≠ place ++ [Marker.fileName]) →
            generation'.workspace.files.get? (place ++ [Marker.fileName]) = some entry) ∧
          ∀ entry, workspace.files.get? (place ++ [Marker.fileName]) = none →
            generation'.workspace.files.get? (place ++ [Marker.fileName]) = some entry →
            (∃ package ∈ generation'.report.packages, ∃ names,
              place = placeOf options.outputRoot ++ package :: names) ∨
            (∃ type ∈ types,
              placeOf (Emitted.pathOf options.outputRoot type) = place ++ [Marker.fileName]) ∨
            (∃ path, options.tablePath = some path ∧
              placeOf path = place ++ [Marker.fileName]) ∨
            entry = .directory ∧
              (place ++ [Marker.fileName] ∈
                reached (startOf options.outputRoot) options.outputRoot.pieces ∨
                ∃ path, options.tablePath = some path ∧
                  place ++ [Marker.fileName] ∈ wayTo path) := by
  refine ⟨fun emitted hemitted path cause => ?_, fun generation' hrun => ?_⟩
  · obtain ⟨types, hsets⟩ := emitSets_eq_ok_iff.1 hemitted
    exact Marker.perform_ensure_ne_walk fun package hpackage =>
      hsets.isDirectory_of_mem_packages hpackage
  obtain ⟨types, emitted, created, marked, hsets, hmarks, htable, hreport⟩ :=
    (generate_eq_ok_iff hformatter).1 hrun
  obtain ⟨hadds, -⟩ := Marker.adds_of_ensure hmarks
  obtain ⟨hstored, -⟩ := perform_writeTable_eq_ok_iff.1 htable
  have hfull : ∀ type ∈ types, Name.isFull type.name = true := by
    intro type htype
    obtain ⟨full, hfull, hname⟩ := hsets.exists_full type htype
    exact hname ▸ Name.isFull_stripPrefix hfull hlead
  refine ⟨types, emitted, hsets, hreport, fun type htype =>
    ⟨Name.isGapless_of_isFull (hfull type htype), ?_⟩, fun place => ⟨?_, ?_⟩⟩
  · intro packages hne hinitial
    have hstands :=
      (hsets.stands htype (hfull type htype) hmarks hne hinitial).keeps hstored.keeps
    exact hstands.exists_found
  · intro entry hentry htypes htable'
    have hkeeps :=
      (hsets.stores.keeps.mono (List.subset_append_left _ _)).trans
      ((hadds.keeps.mono (List.nil_subset _)).trans
        (hstored.keeps.mono (List.subset_append_right _ _)))
    refine hkeeps.get?_eq ?_ hentry
    rw [List.mem_append, not_or]
    constructor
    · intro hmem
      obtain ⟨draft, hdraft, hplace⟩ := FileTree.mem_places.1 hmem
      obtain ⟨type, htype, rfl⟩ := List.mem_map.1 hdraft
      rw [Emitted.draft_path] at hplace
      exact htypes type htype hplace
    · intro hmem
      obtain ⟨draft, hdraft, hplace⟩ := FileTree.mem_places.1 hmem
      exact htable' _ (tablePath_of_mem_tableDrafts hdraft) hplace
  · intro entry hnone hentry
    rw [hreport]
    exact new_marker_cases hsets hmarks hstored hproper hnone hentry

/-- The directory of the package of a color has its marker after the run over it, and the output
directory has none. -/
theorem packages_marked_art :
    ∃ generation',
      (generate colorOptions [("art", ["color.json"])]).perform (.start paletteWorkspace) =
        (.ok (), generation') ∧
      (∃ found, generation'.workspace.files.find ⟨"out/art/__init__.py"⟩ = .ok found) ∧
      generation'.workspace.files.get? ["out", "__init__.py"] = none := by
  have hran :
      ((generate colorOptions [("art", ["color.json"])]).perform
        (.start paletteWorkspace)).1.isOk = true ∧
      ((generate colorOptions [("art", ["color.json"])]).perform
        (.start paletteWorkspace)).2.report.table.names =
        ["art.Color"] ∧
      ((generate colorOptions [("art", ["color.json"])]).perform
        (.start paletteWorkspace)).2.report.written =
        [⟨"out/art/color.py"⟩] := by decide +kernel
  obtain ⟨generation', hrun⟩ := exists_eq_ok hran.1
  rw [hrun] at hran
  obtain ⟨-, hnames, hwritten⟩ := hran
  have hproper : paletteWorkspace.files.IsProper := by
    intro place hlists
    simp [FileTree.Lists, paletteWorkspace] at hlists
  have hformatter : colorOptions.formatter = none := rfl
  obtain ⟨types, emitted, hsets, hreport, hmarkers, hplaces⟩ :=
    (packages_marked hformatter (.inl rfl) hproper).2 generation' hrun
  refine ⟨generation', hrun, ?_, ?_⟩
  · have hcolor : "art.Color" ∈ emitted.report.table.names := by
      rw [← hreport, hnames]
      exact List.mem_singleton_self _
    rw [hsets.table_eq, Table.mem_names_insertAll] at hcolor
    obtain ⟨type, htype, hname⟩ := hcolor.resolve_left List.not_mem_nil
    have hinitial : ["art"] <+: Name.packages type.name := by
      rw [hname]
      decide +kernel
    exact (hmarkers type htype).2 ["art"] (by simp) hinitial
  · by_contra hmarker
    obtain ⟨entry, hentry⟩ := Option.ne_none_iff_exists'.1 hmarker
    have hpath : ∀ type ∈ types,
        Emitted.pathOf colorOptions.outputRoot type = ⟨"out/art/color.py"⟩ := by
      intro type htype
      have hmem : Emitted.pathOf colorOptions.outputRoot type ∈ generation'.report.written := by
        rw [hreport, hsets.written_eq]
        exact List.mem_map_of_mem htype
      rw [show generation'.report.written = _ from hwritten] at hmem
      exact List.mem_singleton.1 hmem
    rcases (hplaces ["out"]).2 entry (by decide) hentry with
      ⟨package, -, names, hplace⟩ | ⟨type, htype, hplace⟩ | ⟨path, htable, -⟩ |
        ⟨-, hway | ⟨path, htable, -⟩⟩
    · have hout : placeOf colorOptions.outputRoot = ["out"] := by decide +kernel
      rw [hout] at hplace
      simp at hplace
    · rw [hpath type htype] at hplace
      exact absurd hplace (by decide +kernel)
    · exact absurd htable (by simp [colorOptions, Options.standard])
    · exact absurd hway (by decide +kernel)
    · exact absurd htable (by simp [colorOptions, Options.standard])

/-- A workspace with the document of an enum that is called like a marker, and with a marker in
its package. -/
def markerWorkspace : Workspace :=
  ⟨⟨[(["version.json"], .file (.text (enumOf "a.__init__" "ONE").compact)),
    (["out"], .directory),
    (["out", "a"], .directory), (["out", "a", "__init__.py"], .file (.text "VERSION = 1\n"))]⟩,
      .alone Program.launch⟩

/-- The run over that enum, with its table at the place of a marker of the output directory. -/
def markerRun : Except RunError Unit × Generation :=
  (generate { colorOptions with tablePath := some ⟨"out/__init__.py"⟩ }
    [("a", ["version.json"])]).perform
    (.start markerWorkspace)

/-- The enum is written over the marker of its package, and the output directory gets a file of
that name that is of no type. -/
theorem packages_marked_version :
    markerRun.1.isOk = true ∧ markerRun.2.report.written = [⟨"out/a/__init__.py"⟩] ∧
      markerWorkspace.files.readText ⟨"out/a/__init__.py"⟩ = .ok "VERSION = 1\n" ∧
      markerRun.2.workspace.files.readText ⟨"out/a/__init__.py"⟩ =
        .ok "from typing import Literal\n\n\n__init__ = Literal[\"ONE\"]\n" ∧
      markerWorkspace.files.get? ["out", "__init__.py"] = none ∧
      markerRun.2.workspace.files.readText ⟨"out/__init__.py"⟩ =
        .ok markerRun.2.report.table.toJson.pretty := by
  refine ⟨?_, ?_, ?_, ?_, ?_, ?_⟩
  all_goals decide +kernel

end Generation

end AvroBindings
