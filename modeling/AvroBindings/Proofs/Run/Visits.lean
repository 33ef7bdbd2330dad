import AvroBindings.Proofs.FileTree.Ordered
import AvroBindings.Proofs.Run.Marking
import AvroBindings.Run.Program

/-!
# Which markers are created

Marking comes to the directories of some packages and to all directories below them.  It creates
the markers that are missing there, in the order in which it comes to them, and nothing else.

## Main Definitions

* `Marker.Visit` — a directory that marking comes to, by its package and the names from there
  on.
* `Marker.Visit.Walked` — marking comes to the directory.
* `Marker.Visit.Before` — it comes to one before another.
* `Marker.Missing` — the place of a marker that is missing.
* `Marker.Marks` — directories are visited one after another, and those without a marker get
  one.

## Main Statements

* `Marker.marks_of_ensure` — marking visits the directories under those of the packages.
* `Marker.Marks.get?_eq` — what stands after the visits.
* `Marker.Marks.exists_first` — a marker is created at the first visit of its directory.
* `Marker.ensure_exact` — which markers are created, in which order, and that none is created
  again.

## Design Notes

**Packages in packages.**  The directory of one package can be below that of another, and two
packages can have one directory.  A directory is then visited several times.  Its marker is
created at the first visit, under the path that leads to it from the first of these packages.

**The tree that is walked.**  Each package is walked in the tree that the packages before it
have left.  But markers are files, and a walk comes to directories only, so all packages can be
told from the tree before the first of them.
-/

namespace AvroBindings

open AvroBindings.FileTree (IsEntryName Precedes isGround placeOf)

/-! ## Adding files -/

namespace FileTree

variable {tree : FileTree} {place : Place}

theorem setEntry_of_lookup_eq_none {entry : FileEntry} {entries : List (Place × FileEntry)}
    (h : entries.lookup place = none) :
    setEntry place entry entries = entries ++ [(place, entry)] := by
  induction entries with
  | nil => rfl
  | cons first rest ih =>
      obtain ⟨p, e⟩ := first
      rw [List.lookup_cons] at h
      split at h
      next => contradiction
      next hne =>
        have hne : p ≠ place := fun heq => by simp [heq] at hne
        rw [setEntry, if_neg hne, ih h, List.cons_append]

/-- A file that is added adds no directory to those under a place. -/
theorem directoriesUnder_set_file {content : Content} (h : tree.get? place = none)
    (outer : Place) :
    (tree.set place (.file content)).directoriesUnder outer = tree.directoriesUnder outer := by
  have hlookup : tree.entries.lookup place = none := by
    unfold get? at h
    split at h
    next => contradiction
    next => exact h
  rw [directoriesUnder, directoriesUnder, set, setEntry_of_lookup_eq_none hlookup,
    List.filterMap_append]
  simp

end FileTree

namespace Marker

variable {tree tree' : FileTree} {root : Path} {workspace workspace' : Workspace}
  {place : Place}

/-! ## Visits -/

/-- A directory that marking comes to: a package, and the names that lead on from its
directory. -/
structure Visit where
  package : String
  names : Place

namespace Visit

/-- The path of the directory. -/
def directory (root : Path) (visit : Visit) : Path :=
  visit.names.foldl Path.join (root.join visit.package)

/-- The path of its marker. -/
def marker (root : Path) (visit : Visit) : Path := (visit.directory root).join fileName

/-- **Marking comes to a directory**: names of entries lead to it from the directory of a
package. -/
structure Walked (visit : Visit) (tree : FileTree) (root : Path) (packages : NameSet) :
    Prop where
  package_mem : visit.package ∈ packages
  isEntryName : ∀ name ∈ visit.names, IsEntryName name
  isDirectory : tree.get? (placeOf (root.join visit.package) ++ visit.names) = some .directory

/-- **Marking comes to one directory before another**: in an earlier package, or in the same one
and earlier in a walk. -/
def Before (visit other : Visit) : Prop :=
  visit.package < other.package ∨ visit.package = other.package ∧
  Precedes visit.names other.names

theorem before_irrefl (visit : Visit) : ¬visit.Before visit := by
  rintro (h | ⟨-, h⟩)
  · exact String.lt_irrefl _ h
  · exact List.lt_irrefl _ (FileTree.precedes_iff.1 h)

theorem before_or_eq_or_before (visit other : Visit) :
    visit.Before other ∨ visit = other ∨ other.Before visit := by
  obtain ⟨package, names⟩ := visit
  obtain ⟨package', names'⟩ := other
  simp only [Before, FileTree.precedes_iff, Visit.mk.injEq]
  rcases lt_trichotomy package package' with hless | rfl | hgreater
  · exact .inl (.inl hless)
  · rcases lt_trichotomy names names' with hless | rfl | hgreater
    · exact .inl (.inr ⟨rfl, hless⟩)
    · exact .inr (.inl ⟨rfl, rfl⟩)
    · exact .inr (.inr (.inr ⟨rfl, hgreater⟩))
  · exact .inr (.inr (.inl hgreater))

end Visit

/-- **The place of a marker that is missing**: nothing is there, in a directory that marking
comes to. -/
def Missing (tree : FileTree) (root : Path) (packages : NameSet) (place : Place) : Prop :=
  tree.get? place = none ∧ ∃ visit : Visit, visit.Walked tree root packages ∧
    place = placeOf (root.join visit.package) ++ visit.names ++ [fileName]

/-! ## Visiting directories -/

/-- **Directories are visited one after another**, and those without a marker get one. -/
inductive Marks (root : Path) : FileTree → List Visit → List Visit → FileTree → Prop
  | nil (tree : FileTree) : Marks root tree [] [] tree
  | create {tree next tree' : FileTree} {visit : Visit} {rest created : List Visit}
      (first : tree.createEmpty (visit.marker root) = .ok next)
      (later : Marks root next rest created tree') :
      Marks root tree (visit :: rest) (visit :: created) tree'
  | skip {tree tree' : FileTree} {visit : Visit} {rest created : List Visit}
      (stands : Stands tree (visit.directory root))
      (later : Marks root tree rest created tree') :
      Marks root tree (visit :: rest) created tree'

namespace Marks

variable {visits created others more : List Visit}

theorem append {next : FileTree} (h : Marks root tree visits created next)
    (h' : Marks root next others more tree') :
    Marks root tree (visits ++ others) (created ++ more) tree' := by
  induction h with
  | nil tree => exact h'
  | create first _ ih => exact .create first (ih h')
  | skip stands _ ih => exact .skip stands (ih h')

theorem sublist (h : Marks root tree visits created tree') : created.Sublist visits := by
  induction h with
  | nil tree => exact .slnil
  | create _ _ ih => exact ih.cons_cons _
  | skip _ _ ih => exact ih.cons _

/-- A marker is created where nothing stood, and is all that is changed. -/
theorem get?_of_create {next : FileTree} {visit : Visit}
    (first : tree.createEmpty (visit.marker root) = .ok next) :
    tree.get? (placeOf (visit.directory root)) = some .directory ∧
      tree.get? (placeOf (visit.marker root)) = none ∧
      ∀ place, next.get? place =
        if place = placeOf (visit.marker root) then some (.file (.text ""))
          else tree.get? place := by
  obtain ⟨hdirectory, hnone, hset⟩ := get?_of_createEmpty first
  rw [← placeOf_marker] at hnone hset
  exact ⟨hdirectory, hnone, hset⟩

/-- The directories under a place stay what they are. -/
theorem directoriesUnder_eq (h : Marks root tree visits created tree') (outer : Place) :
    tree'.directoriesUnder outer = tree.directoriesUnder outer := by
  induction h with
  | nil tree => rfl
  | @create tree next tree' visit rest created first _ ih =>
      obtain ⟨init, name, hpieces, hname, -⟩ := endsInName_marker (visit.directory root)
      obtain ⟨-, -, hnone, rfl⟩ := (FileTree.createEmpty_eq_ok_iff hpieces hname).1 first
      rw [ih, FileTree.directoriesUnder_set_file hnone]
  | skip _ _ ih => exact ih

/-- **Every directory that is visited is there**, before the first visit. -/
theorem get?_directory (h : Marks root tree visits created tree') :
    ∀ visit ∈ visits, tree.get? (placeOf (visit.directory root)) = some .directory := by
  induction h with
  | nil tree => simp
  | create first _ ih =>
      obtain ⟨hdirectory, -, hset⟩ := get?_of_create first
      refine List.forall_mem_cons.2 ⟨hdirectory, fun visit hvisit => ?_⟩
      have hstands := ih visit hvisit
      rw [hset] at hstands
      split at hstands
      next => simp at hstands
      next => exact hstands
  | @skip tree tree' visit rest created stands _ ih =>
      obtain ⟨found, hfound⟩ := stands.exists_found
      obtain ⟨hfollows, -, -⟩ := FileTree.find_eq_ok_iff.1 hfound
      refine List.forall_mem_cons.2 ⟨?_, ih⟩
      exact hfollows.passes _ (FileTree.placeOf_mem_wayTo_join_name _ isName_fileName)

/-- **What stands after the visits**: the markers that were created, and elsewhere what stood
before. -/
theorem get?_eq (h : Marks root tree visits created tree') (place : Place) :
    tree'.get? place = if place ∈ (created.map (Visit.marker root)).map placeOf then
      some (.file (.text ""))
      else tree.get? place := by
  induction h with
  | nil tree => simp
  | @create tree next tree' visit rest created first _ ih =>
      obtain ⟨-, -, hset⟩ := get?_of_create first
      rw [ih, hset, List.map_cons, List.map_cons]
      by_cases hlater : place ∈ (created.map (Visit.marker root)).map placeOf
      · rw [if_pos hlater, if_pos (List.mem_cons_of_mem _ hlater)]
      · by_cases hplace : place = placeOf (visit.marker root)
        · rw [if_neg hlater, if_pos hplace, if_pos (hplace ▸ List.mem_cons_self)]
        · rw [if_neg hlater, if_neg hplace,
            if_neg (mt List.mem_cons.1 (not_or.2 ⟨hplace, hlater⟩))]
  | skip _ _ ih => exact ih

/-- Markers are created only where they are missing. -/
theorem get?_marker_eq_none (h : Marks root tree visits created tree') :
    ∀ visit ∈ created, tree.get? (placeOf (visit.marker root)) = none := by
  induction h with
  | nil tree => simp
  | create first _ ih =>
      obtain ⟨-, hnone, hset⟩ := get?_of_create first
      refine List.forall_mem_cons.2 ⟨hnone, fun visit hvisit => ?_⟩
      have hlater := ih visit hvisit
      rw [hset] at hlater
      split at hlater
      next => contradiction
      next => exact hlater
  | skip _ _ ih => exact ih

/-- **Every marker that is missing is created.** -/
theorem placeOf_marker_mem (h : Marks root tree visits created tree') :
    ∀ visit ∈ visits, tree.get? (placeOf (visit.marker root)) = none →
      placeOf (visit.marker root) ∈ (created.map (Visit.marker root)).map placeOf := by
  intro visit hvisit hnone
  by_contra hmem
  induction h with
  | nil tree => exact List.not_mem_nil hvisit
  | create first _ ih =>
      obtain ⟨-, -, hset⟩ := get?_of_create first
      rw [List.map_cons, List.map_cons, List.mem_cons, not_or] at hmem
      rcases List.mem_cons.1 hvisit with rfl | hvisit
      · exact hmem.1 rfl
      · exact ih hvisit ((hset _).trans ((if_neg hmem.1).trans hnone)) hmem.2
  | skip stands _ ih =>
      rcases List.mem_cons.1 hvisit with rfl | hvisit
      · obtain ⟨entry, hentry⟩ := stands.exists_entry
        exact absurd (hnone.symm.trans hentry) (by simp)
      · exact ih hvisit hnone hmem

/-- **A marker is created at the first visit of its directory.** -/
theorem exists_first (h : Marks root tree visits created tree') :
    ∀ visit ∈ created, ∃ before after, visits = before ++ visit :: after ∧
      ∀ earlier ∈ before, placeOf (earlier.marker root) ≠ placeOf (visit.marker root) := by
  induction h with
  | nil tree => simp
  | @create tree next tree' first rest created hfirst later ih =>
      refine List.forall_mem_cons.2 ⟨⟨[], rest, rfl, by simp⟩, fun visit hvisit => ?_⟩
      obtain ⟨before, after, rfl, hbefore⟩ := ih visit hvisit
      refine ⟨first :: before, after, rfl, List.forall_mem_cons.2 ⟨fun hsame => ?_, hbefore⟩⟩
      have hnone := later.get?_marker_eq_none visit hvisit
      rw [(get?_of_create hfirst).2.2, if_pos hsame.symm] at hnone
      contradiction
  | @skip tree tree' first rest created stands later ih =>
      intro visit hvisit
      obtain ⟨before, after, rfl, hbefore⟩ := ih visit hvisit
      refine ⟨first :: before, after, rfl, List.forall_mem_cons.2 ⟨fun hsame => ?_, hbefore⟩⟩
      obtain ⟨entry, hentry⟩ := stands.exists_entry
      have hnone := later.get?_marker_eq_none visit hvisit
      rw [← hsame] at hnone
      exact absurd (hnone.symm.trans hentry) (by simp)

/-- No marker is created twice. -/
theorem nodup (h : Marks root tree visits created tree') :
    ((created.map (Visit.marker root)).map placeOf).Nodup := by
  induction h with
  | nil tree => simp
  | @create tree next tree' visit rest created first later ih =>
      rw [List.map_cons, List.map_cons, List.nodup_cons]
      refine ⟨fun hmem => ?_, ih⟩
      simp only [List.map_map, List.mem_map, Function.comp_apply] at hmem
      obtain ⟨other, hother, hsame⟩ := hmem
      have hnone := later.get?_marker_eq_none other hother
      rw [(get?_of_create first).2.2, if_pos hsame] at hnone
      contradiction
  | skip _ _ ih => exact ih

end Marks

/-! ## Marking -/

/-- Marking directories of a package visits them. -/
theorem marks_of_ensureEach {package : String} {places : List Place} {paths : List Path}
    (h : (ensureEach (root.join package) places).perform workspace = (.ok paths, workspace')) :
    workspace'.outside = workspace.outside ∧ ∃ created,
      Marks root workspace.files (places.map (Visit.mk package)) created workspace'.files ∧
        paths = created.map (Visit.marker root) := by
  induction places generalizing workspace paths with
  | nil =>
      obtain ⟨hpaths, rfl⟩ := Prod.mk.inj h
      obtain rfl := Except.ok.inj hpaths
      exact ⟨rfl, [], .nil _, rfl⟩
  | cons names rest ih =>
      rw [ensureEach, Action.perform_bind, Action.perform_get] at h
      dsimp only at h
      split at h
      next files hcreate =>
        rw [Action.perform_bind, Action.perform_set] at h
        obtain ⟨others, next, hrest, hreturn⟩ := Action.perform_bind_eq_ok_iff.1 h
        obtain ⟨hpaths, rfl⟩ := Prod.mk.inj hreturn
        obtain rfl := Except.ok.inj hpaths
        obtain ⟨houtside, created, hmarks, rfl⟩ := ih hrest
        exact ⟨houtside, Visit.mk package names :: created, .create hcreate hmarks, rfl⟩
      next hstands =>
        obtain ⟨houtside, created, hmarks, rfl⟩ := ih h
        exact ⟨houtside, created, .skip hstands hmarks, rfl⟩
      next => simp at h

/-- The directories under those of some packages, one package after another. -/
def visits (tree : FileTree) (root : Path) (packages : List String) : List Visit :=
  packages.flatMap fun package =>
    (tree.directoriesUnder (placeOf (root.join package))).map (Visit.mk package)

theorem marks_of_ensureAll {packages : List String} {paths : List Path}
    (hthere : ∀ package ∈ packages, workspace.files.isDirectory (root.join package) = true)
    (h : (ensureAll root packages).perform workspace = (.ok paths, workspace')) :
    workspace'.outside = workspace.outside ∧ ∃ created,
      Marks root workspace.files (visits workspace.files root packages) created
        workspace'.files ∧
        paths = created.map (Visit.marker root) := by
  induction packages generalizing workspace paths with
  | nil =>
      obtain ⟨hpaths, rfl⟩ := Prod.mk.inj h
      obtain rfl := Except.ok.inj hpaths
      exact ⟨rfl, [], .nil _, rfl⟩
  | cons package rest ih =>
      rw [List.forall_mem_cons] at hthere
      obtain ⟨first, next, hunder, h⟩ := Action.perform_bind_eq_ok_iff.1 h
      obtain ⟨others, next', hrest, hreturn⟩ := Action.perform_bind_eq_ok_iff.1 h
      obtain ⟨hpaths, rfl⟩ := Prod.mk.inj hreturn
      obtain rfl := Except.ok.inj hpaths
      obtain ⟨hadds, -⟩ := adds_of_ensureUnder hunder
      obtain ⟨hfollows, hentry⟩ := FileTree.isDirectory_iff.1 hthere.1
      rw [ensureUnder, Action.perform_bind, Action.perform_get] at hunder
      dsimp only at hunder
      rw [FileTree.find_eq_ok_iff.2 ⟨hfollows, rfl, hentry⟩] at hunder
      have hthere' : ∀ other ∈ rest, next.files.isDirectory (root.join other) = true := by
        intro other hother
        obtain ⟨hfollows, hentry⟩ := FileTree.isDirectory_iff.1 (hthere.2 other hother)
        exact FileTree.isDirectory_iff.2 ⟨hadds.keeps.follows hfollows,
          hadds.keeps.directory _ hentry⟩
      obtain ⟨houtside, created, hmarks, rfl⟩ := marks_of_ensureEach hunder
      obtain ⟨houtside', created', hmarks', rfl⟩ := ih hthere' hrest
      -- The packages that are left are walked in the tree that this one has left.
      have hvisits : visits next.files root rest = visits workspace.files root rest := by
        unfold visits
        simp only [hmarks.directoriesUnder_eq]
      rw [hvisits] at hmarks'
      exact ⟨houtside'.trans houtside, created ++ created', hmarks.append hmarks',
        List.map_append.symm⟩

variable {packages : NameSet} {created : List Path}

/-- **Marking visits the directories under those of the packages**, which are there. -/
theorem marks_of_ensure
    (hthere : ∀ package ∈ packages, workspace.files.isDirectory (root.join package) = true)
    (h : (ensure root packages).perform workspace = (.ok created, workspace')) :
    workspace'.outside = workspace.outside ∧ ∃ visited,
      Marks root workspace.files (visits workspace.files root packages.names) visited
        workspace'.files ∧
        created = visited.map (Visit.marker root) :=
  marks_of_ensureAll hthere h

/-! ## What is visited -/

/-- The visits are in their order. -/
theorem pairwise_visits (tree : FileTree) (root : Path) (packages : NameSet) :
    (visits tree root packages.names).Pairwise fun visit other => ¬other.Before visit := by
  refine List.pairwise_flatMap.2 ⟨fun package _ => ?_,
    packages.increasing.imp fun {first second} hless => ?_⟩
  · refine List.pairwise_map.2
      ((FileTree.pairwise_directoriesUnder tree _).imp fun {names others} hnot => ?_)
    rintro (hless | ⟨-, hprecedes⟩)
    · exact String.lt_irrefl _ hless
    · exact hnot hprecedes
  · refine List.forall_mem_map.2 fun names _ => List.forall_mem_map.2 fun others _ => ?_
    rintro (hgreater | ⟨hsame, -⟩)
    · exact String.lt_asymm hless hgreater
    · rw [show second = first from hsame] at hless
      exact String.lt_irrefl _ hless

/-- **The visits are to the directories that marking comes to**, if all of them succeed. -/
theorem Marks.mem_visits_iff {visited : List Visit} (hproper : tree.IsProper)
    (h : Marks root tree (visits tree root packages.names) visited tree') (visit : Visit) :
    visit ∈ visits tree root packages.names ↔ visit.Walked tree root packages := by
  have hmem : visit ∈ visits tree root packages.names ↔
      visit.package ∈ packages ∧
      visit.names ∈ tree.directoriesUnder (placeOf (root.join visit.package)) := by
    obtain ⟨package, names⟩ := visit
    simp [visits, NameSet.mem_def]
  rw [hmem, FileTree.mem_directoriesUnder_iff_isEntryName hproper]
  constructor
  · rintro ⟨hpackage, hentries, hlisted⟩
    refine ⟨hpackage, hentries, ?_⟩
    rw [← FileTree.placeOf_foldl_join hentries]
    exact h.get?_directory visit
      (hmem.2 ⟨hpackage,
        (FileTree.mem_directoriesUnder_iff_isEntryName hproper).2 ⟨hentries, hlisted⟩⟩)
  · rintro ⟨hpackage, hentries, hdirectory⟩
    refine ⟨hpackage, hentries, ?_⟩
    by_cases hground : isGround (placeOf (root.join visit.package) ++ visit.names) = true
    · -- No name of an entry leads to a directory that needs none.
      have hnames : visit.names = [] := by
        refine List.eq_nil_iff_forall_not_mem.2 fun name hname => ?_
        rw [FileTree.isGround_eq_false (List.mem_append_right _ hname) (hentries name hname)]
          at hground
        contradiction
      rw [hnames, List.append_nil] at hground
      exact .inl ⟨hground, hnames⟩
    · exact .inr (FileTree.lists_of_get? (by simpa using hground) hdirectory)

/-! ## What is created -/

/-- The marker of a directory that marking comes to stands below it. -/
theorem Visit.Walked.placeOf_marker {visit : Visit} (h : visit.Walked tree root packages) :
    placeOf (visit.marker root) = placeOf (root.join visit.package) ++ visit.names ++
      [fileName] := by
  rw [Visit.marker, Marker.placeOf_marker, Visit.directory,
    FileTree.placeOf_foldl_join h.isEntryName]

namespace Marks

variable {visited : List Visit}

/-- **The markers that are created are those that are missing.** -/
theorem mem_places_iff (hproper : tree.IsProper)
    (h : Marks root tree (visits tree root packages.names) visited tree') (place : Place) :
    place ∈ (visited.map (Visit.marker root)).map placeOf ↔
      Missing tree root packages place := by
  constructor
  · simp only [List.map_map, List.mem_map, Function.comp_apply]
    rintro ⟨visit, hvisit, rfl⟩
    have hwalked := (h.mem_visits_iff hproper visit).1 (h.sublist.subset hvisit)
    exact ⟨h.get?_marker_eq_none visit hvisit, visit, hwalked, hwalked.placeOf_marker⟩
  · rintro ⟨hnone, visit, hwalked, rfl⟩
    rw [← hwalked.placeOf_marker] at hnone ⊢
    exact h.placeOf_marker_mem visit ((h.mem_visits_iff hproper visit).2 hwalked) hnone

/-- **Markers are created in the order of the visits.** -/
theorem pairwise_before (h : Marks root tree (visits tree root packages.names) visited tree') :
    visited.Pairwise Visit.Before := by
  have hdistinct : visited.Pairwise fun visit other => visit ≠ other :=
    (List.pairwise_map.1 (List.pairwise_map.1 h.nodup)).imp fun hne heq => hne (by rw [heq])
  refine ((pairwise_visits tree root packages).sublist h.sublist).imp₂
    (fun visit other hnot hne => ?_) hdistinct
  exact (visit.before_or_eq_or_before other).resolve_right (not_or.2 ⟨hne, hnot⟩)

/-- **The visits before one that creates a marker are to other directories.** -/
theorem place_ne_of_before (h : Marks root tree (visits tree root packages.names) visited tree')
    {visit other : Visit} (hvisit : visit ∈ visited)
    (hother : other ∈ visits tree root packages.names) (hbefore : other.Before visit) :
    placeOf (other.marker root) ≠ placeOf (visit.marker root) := by
  obtain ⟨before, after, hsplit, hfirst⟩ := h.exists_first visit hvisit
  have hsorted := pairwise_visits tree root packages
  rw [hsplit] at hother hsorted
  rcases List.mem_append.1 hother with hother | hother
  · exact hfirst other hother
  · -- What is visited later is not before.
    rcases List.mem_cons.1 hother with rfl | hother
    · exact absurd hbefore other.before_irrefl
    · exact absurd hbefore
        ((List.pairwise_cons.1 (List.pairwise_append.1 hsorted).2.1).1 other hother)

end Marks

/-- **Which markers are created.**  Marking packages whose directories are there creates an
empty file in each directory at or below them that has no entry called like a marker, and
changes nothing else.  It reports the paths of these files, each once: in the order of the
packages, and in each package in the order of a walk.  A directory that is in several packages
is reported in the first of them.  Marking the packages again creates nothing and changes
nothing. -/
theorem ensure_exact (hproper : workspace.files.IsProper)
    (hthere : ∀ package ∈ packages, workspace.files.isDirectory (root.join package) = true)
    (h : (ensure root packages).perform workspace = (.ok created, workspace')) :
    workspace'.outside = workspace.outside ∧
    (∀ place, Missing workspace.files root packages place →
      workspace'.files.get? place = some (.file (.text ""))) ∧
    (∀ place, ¬Missing workspace.files root packages place →
      workspace'.files.get? place = workspace.files.get? place) ∧
    (∀ place, place ∈ created.map placeOf ↔ Missing workspace.files root packages place) ∧
    (created.map placeOf).Nodup ∧
    (∃ visited : List Visit, created = visited.map (Visit.marker root) ∧
      visited.Pairwise Visit.Before ∧
      ∀ visit ∈ visited, visit.Walked workspace.files root packages ∧
        ∀ other : Visit, other.Walked workspace.files root packages →
          other.package < visit.package → placeOf (root.join other.package) ++ other.names ≠
            placeOf (root.join visit.package) ++ visit.names) ∧
    (ensure root packages).perform workspace' = (.ok [], workspace') := by
  obtain ⟨houtside, visited, hmarks, rfl⟩ := marks_of_ensure hthere h
  have hmissing := hmarks.mem_places_iff hproper
  refine ⟨houtside, fun place hplace => ?_, fun place hplace => ?_, hmissing, hmarks.nodup,
    ⟨visited, rfl, hmarks.pairwise_before, fun visit hvisit => ?_⟩,
    perform_ensure_of_settled (adds_of_ensure h).2⟩
  · rw [hmarks.get?_eq, if_pos ((hmissing place).2 hplace)]
  · rw [hmarks.get?_eq, if_neg (mt (hmissing place).1 hplace)]
  · have hwalked := (hmarks.mem_visits_iff hproper visit).1 (hmarks.sublist.subset hvisit)
    refine ⟨hwalked, fun other hother hless hsame => ?_⟩
    have hne :=
      hmarks.place_ne_of_before hvisit ((hmarks.mem_visits_iff hproper other).2 hother)
        (.inl hless)
    rw [hother.placeOf_marker, hwalked.placeOf_marker, hsame] at hne
    exact hne rfl

/-- A package that has its marker, with two directories below that have none, beside a directory
that is in no package. -/
def packageWorkspace : Workspace :=
  ⟨⟨[(["out"], .directory), (["out", "my"], .directory),
    (["out", "my", "__init__.py"], .file (.text "VERSION = 1\n")),
    (["out", "my", "test"], .directory), (["out", "my", "test", "deep"], .directory),
    (["out", "other"], .directory)]⟩, .alone Program.launch⟩

/-- Marking the package creates two markers. -/
theorem exists_perform_ensure_my :
    ∃ workspace', (ensure ⟨"out"⟩ ⟨["my"], by simp⟩).perform packageWorkspace =
      (.ok [⟨"out/my/test/__init__.py"⟩, ⟨"out/my/test/deep/__init__.py"⟩], workspace') := by
  have hunder : packageWorkspace.files.directoriesUnder ["out", "my"] =
      [[], ["test"], ["test", "deep"]] := by
    rw [FileTree.directoriesUnder, List.mergeSort_of_pairwise (by decide)]
    rfl
  have hfind : packageWorkspace.files.find (Path.join ⟨"out"⟩ "my") =
      .ok (["out", "my"], .directory) := by
    decide +kernel
  have hran : ((ensureEach (Path.join ⟨"out"⟩ "my") [[], ["test"], ["test", "deep"]]).perform
      packageWorkspace).1.toOption =
        some [⟨"out/my/test/__init__.py"⟩, ⟨"out/my/test/deep/__init__.py"⟩] := by
    decide +kernel
  rcases heach : (ensureEach (Path.join ⟨"out"⟩ "my") [[], ["test"], ["test", "deep"]]).perform
    packageWorkspace with
    ⟨error | created, workspace'⟩
  · rw [heach] at hran
    contradiction
  rw [heach] at hran
  obtain rfl := Option.some.inj hran
  have hfirst : (ensureUnder (Path.join ⟨"out"⟩ "my")).perform packageWorkspace =
      (.ok [⟨"out/my/test/__init__.py"⟩, ⟨"out/my/test/deep/__init__.py"⟩], workspace') := by
    rw [ensureUnder, Action.perform_bind, Action.perform_get]
    dsimp only
    rw [hfind]
    dsimp only
    rw [hunder, heach]
  exact ⟨workspace', Action.perform_bind_eq_ok_iff.2 ⟨_, _, hfirst, rfl⟩⟩

/-- The third marker is kept, no other directory gets one, and marking again creates none. -/
theorem ensure_exact_my :
    ∃ workspace', (ensure ⟨"out"⟩ ⟨["my"], by simp⟩).perform packageWorkspace =
        (.ok [⟨"out/my/test/__init__.py"⟩, ⟨"out/my/test/deep/__init__.py"⟩], workspace') ∧
      workspace'.files.get? ["out", "my", "__init__.py"] =
        some (.file (.text "VERSION = 1\n")) ∧
      workspace'.files.get? ["out", "other", "__init__.py"] = none ∧
      (ensure ⟨"out"⟩ ⟨["my"], by simp⟩).perform workspace' = (.ok [], workspace') := by
  obtain ⟨workspace', hrun⟩ := exists_perform_ensure_my
  have hentry : ∀ name ∈ ["out", "my", "test", "deep", "other"], IsEntryName name := by
    simp [FileTree.IsEntryName, Path.IsName, Path.IsIdle]
  have hproper : packageWorkspace.files.IsProper := by
    intro place hlists
    refine ⟨[], place, rfl, rfl, fun name hname => hentry name ?_⟩
    simp only [FileTree.Lists, packageWorkspace, List.mem_cons, Prod.mk.injEq, List.not_mem_nil,
      or_false] at hlists
    rcases hlists with ⟨rfl, -⟩ | ⟨rfl, -⟩ | ⟨-, h⟩ | ⟨rfl, -⟩ | ⟨rfl, -⟩ | ⟨rfl, -⟩
    all_goals first | contradiction | (revert name; decide)
  have hthere : ∀ package ∈ (⟨["my"], by simp⟩ : NameSet),
      packageWorkspace.files.isDirectory (Path.join ⟨"out"⟩ package) = true :=
    List.forall_mem_singleton.2 (by decide +kernel)
  have hout : placeOf (Path.join ⟨"out"⟩ "my") = ["out", "my"] := by decide +kernel
  obtain ⟨-, -, hkept, -, -, -, hagain⟩ := ensure_exact hproper hthere hrun
  refine ⟨workspace', hrun, ?_, ?_, hagain⟩
  · rw [hkept]
    · rfl
    · exact fun h => absurd h.1 (by simp [FileTree.get?, FileTree.isGround, packageWorkspace])
  · rw [hkept]
    · rfl
    · rintro ⟨-, ⟨package, names⟩, ⟨hpackage, -, -⟩, hplace⟩
      obtain rfl := List.mem_singleton.1 hpackage
      rw [hout] at hplace
      simp at hplace

end Marker

end AvroBindings
