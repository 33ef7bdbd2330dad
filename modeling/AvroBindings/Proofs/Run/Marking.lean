import AvroBindings.Proofs.FileTree.Listing
import AvroBindings.Proofs.Run.Action
import AvroBindings.Run.Marker

/-!
# Marking packages

Marking adds empty files to a workspace and nothing else.  Once the directories at and below a
path have their markers, marking them again changes nothing.

## Main Definitions

* `Marker.Stands` — a directory has its marker.
* `Marker.Settled` — all directories at and below a path have theirs.
* `Marker.Adds` — what marking does to a workspace.

## Main Statements

* `Marker.adds_of_ensure` — what marking packages does, and that they are settled then.
* `Marker.perform_ensure_of_settled` — what it does where they are settled.
* `Marker.Settled.keeps` — packages remain settled where no directory is added to them.
-/

namespace AvroBindings

namespace Marker

open FileTree (Keeps)

variable {tree tree' : FileTree} {directory root : Path} {workspace workspace' : Workspace}
  {created : List Path}

/-! ## One directory -/

theorem isName_fileName : Path.IsName fileName := ⟨by decide, by decide⟩

theorem plain_fileName : ¬Path.IsIdle fileName ∧ fileName ≠ ".." :=
  ⟨by simp [Path.IsIdle, fileName], by decide⟩

theorem endsInName_marker (directory : Path) :
    FileTree.EndsInName (directory.join fileName) := by
  have hends : FileTree.EndsInName (directory.join ("/".intercalate [fileName])) :=
    FileTree.endsInName_join (List.forall_mem_singleton.2 isName_fileName)
      (List.forall_mem_singleton.2 plain_fileName)
      (List.cons_ne_nil _ _)
  rwa [String.intercalate_singleton] at hends

/-- **A directory has its marker**: none is created because there is something of that name. -/
def Stands (tree : FileTree) (directory : Path) : Prop :=
  tree.createEmpty (directory.join fileName) = .error .exists

/-- There is something in the place of a marker that stands. -/
theorem Stands.exists_entry (h : Stands tree directory) :
    ∃ entry, tree.get? (FileTree.placeOf (directory.join fileName)) = some entry := by
  obtain ⟨init, name, hpieces, hname, -⟩ := endsInName_marker directory
  exact ((FileTree.createEmpty_eq_exists_iff hpieces hname).1 h).2.2

/-- A marker that stands is found. -/
theorem Stands.exists_found (h : Stands tree directory) :
    ∃ found, tree.find (directory.join fileName) = .ok found := by
  obtain ⟨init, name, hpieces, hname, -⟩ := endsInName_marker directory
  obtain ⟨hfollows, -, entry, hentry⟩ := (FileTree.createEmpty_eq_exists_iff hpieces hname).1 h
  exact ⟨_, FileTree.find_eq_ok_iff.2 ⟨hfollows, rfl, hentry⟩⟩

/-- A marker that stands remains. -/
theorem Stands.keeps {changed : List Place} (h : Stands tree directory)
    (hkeeps : Keeps changed tree tree') :
    Stands tree' directory := by
  obtain ⟨init, name, hpieces, hname, -⟩ := endsInName_marker directory
  rw [Stands, FileTree.createEmpty_eq_exists_iff hpieces hname] at h ⊢
  obtain ⟨hfollows, hup, entry, hentry⟩ := h
  exact ⟨hkeeps.follows hfollows, hup, hkeeps.exists_entry hentry⟩

/-- **What marking does to a workspace**: entries are added, and none of them is a directory. -/
structure Adds (workspace workspace' : Workspace) : Prop where
  outside : workspace'.outside = workspace.outside
  keeps : Keeps [] workspace.files workspace'.files
  lists : ∀ place, workspace'.files.Lists place → workspace.files.Lists place

theorem Adds.refl (workspace : Workspace) : Adds workspace workspace :=
  ⟨rfl, .refl _, fun _ => id⟩

theorem Adds.trans {next : Workspace} (h : Adds workspace next) (h' : Adds next workspace') :
    Adds workspace workspace' :=
  ⟨h'.outside.trans h.outside, h.keeps.trans h'.keeps,
    fun place hplace => h.lists place (h'.lists place hplace)⟩

/-- A marker that is created is all that is added. -/
theorem adds_of_createEmpty
    (h : workspace.files.createEmpty (directory.join fileName) = .ok tree') :
    Adds workspace { workspace with files := tree' } ∧ Stands tree' directory := by
  obtain ⟨init, name, hpieces, hname, hup⟩ := endsInName_marker directory
  obtain ⟨hfollows, -, hnone, rfl⟩ := (FileTree.createEmpty_eq_ok_iff hpieces hname).1 h
  have hground := FileTree.isGround_placeOf hpieces hname hup
  have hkeeps :
      Keeps [] workspace.files (workspace.files.set (FileTree.placeOf (directory.join fileName))
      (.file (.text ""))) := .set_new hground hnone
  refine ⟨⟨rfl, hkeeps, fun place hplace => ?_⟩, ?_⟩
  · exact FileTree.lists_of_lists_set_file hplace
  · refine (FileTree.createEmpty_eq_exists_iff hpieces hname).2
      ⟨hkeeps.follows hfollows, hup, .file (.text ""), ?_⟩
    rw [FileTree.get?_set hground, if_pos rfl]

/-! ## Several directories -/

/-- **Directories are marked one after another.** -/
theorem adds_of_ensureEach {places : List Place}
    (h : (ensureEach root places).perform workspace = (.ok created, workspace')) :
    Adds workspace workspace' ∧
      ∀ names ∈ places, Stands workspace'.files (names.foldl Path.join root) := by
  induction places generalizing workspace created with
  | nil =>
      obtain ⟨-, rfl⟩ := Prod.mk.inj h
      exact ⟨.refl _, by simp⟩
  | cons names rest ih =>
      rw [ensureEach, Action.perform_bind, Action.perform_get] at h
      dsimp only at h
      split at h
      next files hcreate =>
        obtain ⟨hadds, hstands⟩ := adds_of_createEmpty hcreate
        rw [Action.perform_bind, Action.perform_set] at h
        obtain ⟨others, next, hrest, hreturn⟩ := Action.perform_bind_eq_ok_iff.1 h
        obtain ⟨-, rfl⟩ := Prod.mk.inj hreturn
        obtain ⟨hadds', hothers⟩ := ih hrest
        exact ⟨hadds.trans hadds', List.forall_mem_cons.2 ⟨hstands.keeps hadds'.keeps, hothers⟩⟩
      next hcreate =>
        obtain ⟨hadds, hothers⟩ := ih h
        exact ⟨hadds, List.forall_mem_cons.2 ⟨Stands.keeps hcreate hadds.keeps, hothers⟩⟩
      next => simp at h

/-- Where all markers stand none is created. -/
theorem perform_ensureEach_of_stands {places : List Place}
    (h : ∀ names ∈ places, Stands workspace.files (names.foldl Path.join root)) :
    (ensureEach root places).perform workspace = (.ok [], workspace) := by
  induction places with
  | nil => rfl
  | cons names rest ih =>
      rw [List.forall_mem_cons] at h
      have hstands : workspace.files.createEmpty ((names.foldl Path.join root).join fileName) =
          .error .exists := h.1
      rw [ensureEach, Action.perform_bind, Action.perform_get]
      dsimp only
      rw [hstands]
      exact ih h.2

/-! ## Packages -/

/-- **All directories at and below a path have their markers**, or the path leads to a file. -/
def Settled (tree : FileTree) (root : Path) : Prop :=
  tree.Follows root ∧ ((∃ content, tree.get? (FileTree.placeOf root) = some (.file content)) ∨
    tree.get? (FileTree.placeOf root) = some .directory ∧
      ∀ names ∈ tree.directoriesUnder (FileTree.placeOf root),
        Stands tree (names.foldl Path.join root))

/-- **A package remains settled where no directory is added to it.** -/
theorem Settled.keeps {changed : List Place} (h : Settled tree root)
    (hkeeps : Keeps changed tree tree')
    (hlists : ∀ place, FileTree.placeOf root <+: place → tree'.Lists place → tree.Lists place) :
    Settled tree' root := by
  obtain ⟨hfollows, h⟩ := h
  refine ⟨hkeeps.follows hfollows, h.imp ?_ ?_⟩
  · rintro ⟨content, hentry⟩
    obtain ⟨content', hentry', -⟩ := hkeeps.file _ content hentry
    exact ⟨content', hentry'⟩
  · rintro ⟨hentry, hstands⟩
    refine ⟨hkeeps.directory _ hentry, fun names hnames => (hstands names ?_).keeps hkeeps⟩
    rw [FileTree.mem_directoriesUnder_iff] at hnames ⊢
    exact hnames.imp_right (And.imp_right (hlists _ (List.prefix_append _ _)))

/-- A directory in a settled package has its marker. -/
theorem Settled.stands (h : Settled tree root)
    (hroot : tree.get? (FileTree.placeOf root) = some .directory) {names : Place}
    (hdown : FileTree.leadsDown names = true)
    (hground : FileTree.isGround (FileTree.placeOf root ++ names) = false)
    (hdirectory : tree.get? (FileTree.placeOf root ++ names) = some .directory) :
    Stands tree (names.foldl Path.join root) := by
  obtain ⟨-, ⟨content, hfile⟩ | ⟨-, hstands⟩⟩ := h
  · simp [hroot] at hfile
  · exact hstands names
      (FileTree.mem_directoriesUnder_iff.2
        (.inr ⟨hdown, FileTree.lists_of_get? hground hdirectory⟩))

theorem adds_of_ensureUnder
    (h : (ensureUnder root).perform workspace = (.ok created, workspace')) :
    Adds workspace workspace' ∧ Settled workspace'.files root := by
  rw [ensureUnder, Action.perform_bind, Action.perform_get] at h
  dsimp only at h
  split at h
  next place hfind =>
    obtain ⟨hfollows, rfl, hentry⟩ := FileTree.find_eq_ok_iff.1 hfind
    obtain ⟨hadds, hstands⟩ := adds_of_ensureEach h
    refine ⟨hadds, hadds.keeps.follows hfollows,
      .inr ⟨hadds.keeps.directory _ hentry, fun names hnames => ?_⟩⟩
    refine hstands names ?_
    rw [FileTree.mem_directoriesUnder_iff] at hnames ⊢
    exact hnames.imp_right (And.imp_right (hadds.lists _))
  next place content hfind =>
    obtain ⟨hfollows, rfl, hentry⟩ := FileTree.find_eq_ok_iff.1 hfind
    obtain ⟨-, rfl⟩ := Prod.mk.inj h
    exact ⟨.refl _, hfollows, .inl ⟨content, hentry⟩⟩
  next => simp at h

theorem perform_ensureUnder_of_settled (h : Settled workspace.files root) :
    (ensureUnder root).perform workspace = (.ok [], workspace) := by
  rw [ensureUnder, Action.perform_bind, Action.perform_get]
  dsimp only
  obtain ⟨hfollows, ⟨content, hentry⟩ | ⟨hentry, hstands⟩⟩ := h
  · rw [FileTree.find_eq_ok_iff.2 ⟨hfollows, rfl, hentry⟩]
    rfl
  · rw [FileTree.find_eq_ok_iff.2 ⟨hfollows, rfl, hentry⟩]
    exact perform_ensureEach_of_stands hstands

theorem adds_of_ensureAll {packages : List String}
    (h : (ensureAll root packages).perform workspace = (.ok created, workspace')) :
    Adds workspace workspace' ∧
      ∀ package ∈ packages, Settled workspace'.files (root.join package) := by
  induction packages generalizing workspace created with
  | nil =>
      obtain ⟨-, rfl⟩ := Prod.mk.inj h
      exact ⟨.refl _, by simp⟩
  | cons package rest ih =>
      obtain ⟨first, next, hunder, h⟩ := Action.perform_bind_eq_ok_iff.1 h
      obtain ⟨others, next', hrest, hreturn⟩ := Action.perform_bind_eq_ok_iff.1 h
      obtain ⟨-, rfl⟩ := Prod.mk.inj hreturn
      obtain ⟨hadds, hsettled⟩ := adds_of_ensureUnder hunder
      obtain ⟨hadds', hothers⟩ := ih hrest
      refine ⟨hadds.trans hadds', List.forall_mem_cons.2 ⟨?_, hothers⟩⟩
      exact hsettled.keeps hadds'.keeps fun place _ => hadds'.lists place

/-- **What marking packages does**: files are added, and the packages are settled. -/
theorem adds_of_ensure {packages : NameSet}
    (h : (ensure root packages).perform workspace = (.ok created, workspace')) :
    Adds workspace workspace' ∧
      ∀ package ∈ packages, Settled workspace'.files (root.join package) :=
  adds_of_ensureAll h

theorem perform_ensureAll_of_settled {packages : List String}
    (h : ∀ package ∈ packages, Settled workspace.files (root.join package)) :
    (ensureAll root packages).perform workspace = (.ok [], workspace) := by
  induction packages with
  | nil => rfl
  | cons package rest ih =>
      rw [List.forall_mem_cons] at h
      rw [ensureAll, Action.perform_bind, perform_ensureUnder_of_settled h.1]
      dsimp only
      rw [Action.perform_bind, ih h.2]
      rfl

/-- **Where the packages are settled, marking them changes nothing.** -/
theorem perform_ensure_of_settled {packages : NameSet}
    (h : ∀ package ∈ packages, Settled workspace.files (root.join package)) :
    (ensure root packages).perform workspace = (.ok [], workspace) :=
  perform_ensureAll_of_settled h

/-! ## Markers that are created -/

/-- **Markers are created one after another**, each in a directory. -/
inductive Creates : FileTree → List Path → FileTree → Prop
  | nil (tree : FileTree) : Creates tree [] tree
  | cons {tree next tree' : FileTree} {directory : Path} {rest : List Path}
      (first : tree.createEmpty (directory.join fileName) = .ok next)
      (others : Creates next rest tree') : Creates tree (directory :: rest) tree'

/-- A marker stands below the place of its directory. -/
theorem placeOf_marker (directory : Path) :
    FileTree.placeOf (directory.join fileName) = FileTree.placeOf directory ++ [fileName] :=
  FileTree.placeOf_join_name directory isName_fileName plain_fileName

/-- A marker is created in a directory, where nothing stood, and is all that is changed. -/
theorem get?_of_createEmpty (h : tree.createEmpty (directory.join fileName) = .ok tree') :
    tree.get? (FileTree.placeOf directory) = some .directory ∧
      tree.get? (FileTree.placeOf directory ++ [fileName]) = none ∧
      ∀ place, tree'.get? place = if place = FileTree.placeOf directory ++ [fileName] then
        some (.file (.text ""))
        else tree.get? place := by
  obtain ⟨init, name, hpieces, hname, hup⟩ := endsInName_marker directory
  obtain ⟨hfollows, -, hnone, rfl⟩ := (FileTree.createEmpty_eq_ok_iff hpieces hname).1 h
  rw [← placeOf_marker]
  refine ⟨hfollows.passes _ (FileTree.placeOf_mem_wayTo_join_name directory isName_fileName),
    hnone, fun place => ?_⟩
  exact FileTree.get?_set (FileTree.isGround_placeOf hpieces hname hup)

namespace Creates

variable {directories others : List Path}

theorem append {next : FileTree} (h : Creates tree directories next)
    (h' : Creates next others tree') :
    Creates tree (directories ++ others) tree' := by
  induction h with
  | nil tree => exact h'
  | cons first _ ih => exact .cons first (ih h')

/-- **Creating markers changes the markers only**: empty files stand where nothing stood. -/
theorem get?_eq (h : Creates tree directories tree') (place : Place) :
    tree'.get? place = tree.get? place ∨
      tree.get? place = none ∧ tree'.get? place = some (.file (.text "")) ∧
        ∃ directory ∈ directories, place = FileTree.placeOf directory ++ [fileName] := by
  induction h with
  | nil tree => exact .inl rfl
  | @cons tree next tree' directory rest first _ ih =>
      obtain ⟨-, hnone, hset⟩ := get?_of_createEmpty first
      rw [List.exists_mem_cons_iff]
      by_cases hplace : place = FileTree.placeOf directory ++ [fileName]
      · have hnext : next.get? place = some (.file (.text "")) :=
          (hset place).trans (if_pos hplace)
        rcases ih with hsame | ⟨hnone', -⟩
        · exact .inr ⟨hplace ▸ hnone, hsame.trans hnext, .inl hplace⟩
        · rw [hnext] at hnone'
          contradiction
      · have hnext : next.get? place = tree.get? place := (hset place).trans (if_neg hplace)
        rw [← hnext]
        exact ih.imp_right fun ⟨hnone', hfile, hmem⟩ => ⟨hnone', hfile, .inr hmem⟩

/-- **Every marker that is created is in a directory**, which was there before. -/
theorem get?_directory (h : Creates tree directories tree') :
    ∀ directory ∈ directories, tree.get? (FileTree.placeOf directory) = some .directory := by
  induction h with
  | nil tree => simp
  | @cons tree next tree' directory rest first _ ih =>
      obtain ⟨hdirectory, -, hset⟩ := get?_of_createEmpty first
      refine List.forall_mem_cons.2 ⟨hdirectory, fun other hother => ?_⟩
      have hstands := ih other hother
      rw [hset] at hstands
      split at hstands
      next => simp at hstands
      next => exact hstands

end Creates

/-- **Marking creates markers, whatever comes of it**, in directories at or below a path. -/
theorem exists_creates_of_ensureEach {places : List Place}
    {outcome : Except RunError (List Path)}
    (h : (ensureEach root places).perform workspace = (outcome, workspace')) :
    ∃ directories, Creates workspace.files directories workspace'.files ∧
      (∀ place, workspace'.files.Lists place → workspace.files.Lists place) ∧
      ∀ directory ∈ directories, ∃ names ∈ places, directory = names.foldl Path.join root := by
  induction places generalizing workspace outcome with
  | nil =>
      obtain ⟨-, rfl⟩ := Prod.mk.inj h
      exact ⟨[], .nil _, fun _ => id, by simp⟩
  | cons names rest ih =>
      have hlater : ∀ {directories : List Path},
          (∀ directory ∈ directories, ∃ names ∈ rest, directory = names.foldl Path.join root) →
            ∀ directory ∈ directories, ∃ others ∈ names :: rest,
              directory = others.foldl Path.join root := by
        intro directories hfound directory hdirectory
        obtain ⟨others, hothers, hpath⟩ := hfound directory hdirectory
        exact ⟨others, List.mem_cons_of_mem _ hothers, hpath⟩
      rw [ensureEach, Action.perform_bind, Action.perform_get] at h
      dsimp only at h
      split at h
      next files hcreate =>
        obtain ⟨hadds, -⟩ := adds_of_createEmpty hcreate
        rw [Action.perform_bind, Action.perform_set] at h
        obtain ⟨result, hrest⟩ := Action.exists_perform_of_return h
        obtain ⟨directories, hcreates, hlists, hfound⟩ := ih hrest
        refine ⟨_, .cons hcreate hcreates,
          fun place hplace => hadds.lists place (hlists place hplace), ?_⟩
        exact List.forall_mem_cons.2 ⟨⟨names, List.mem_cons_self, rfl⟩, hlater hfound⟩
      next =>
        obtain ⟨directories, hcreates, hlists, hfound⟩ := ih h
        exact ⟨directories, hcreates, hlists, hlater hfound⟩
      next =>
        obtain ⟨-, rfl⟩ := Prod.mk.inj h
        exact ⟨[], .nil _, fun _ => id, by simp⟩

theorem exists_creates_of_ensureUnder {outcome : Except RunError (List Path)}
    (h : (ensureUnder root).perform workspace = (outcome, workspace')) :
    ∃ directories, Creates workspace.files directories workspace'.files ∧
      (∀ place, workspace'.files.Lists place → workspace.files.Lists place) ∧
      ∀ directory ∈ directories,
        ∃ names ∈ workspace.files.directoriesUnder (FileTree.placeOf root),
        directory = names.foldl Path.join root := by
  rw [ensureUnder, Action.perform_bind, Action.perform_get] at h
  dsimp only at h
  split at h
  next place hfind =>
    obtain ⟨-, rfl, -⟩ := FileTree.find_eq_ok_iff.1 hfind
    exact exists_creates_of_ensureEach h
  all_goals
    obtain ⟨-, rfl⟩ := Prod.mk.inj h
    exact ⟨[], .nil _, fun _ => id, by simp⟩

theorem exists_creates_of_ensureAll {packages : List String}
    {outcome : Except RunError (List Path)}
    (h : (ensureAll root packages).perform workspace = (outcome, workspace')) :
    ∃ directories, Creates workspace.files directories workspace'.files ∧
      (∀ place, workspace'.files.Lists place → workspace.files.Lists place) ∧
      ∀ directory ∈ directories, ∃ package ∈ packages,
        ∃ names ∈ workspace.files.directoriesUnder (FileTree.placeOf (root.join package)),
          directory = names.foldl Path.join (root.join package) := by
  induction packages generalizing workspace outcome with
  | nil =>
      obtain ⟨-, rfl⟩ := Prod.mk.inj h
      exact ⟨[], .nil _, fun _ => id, by simp⟩
  | cons package rest ih =>
      rw [ensureAll, Action.perform_bind] at h
      rcases hunder : (ensureUnder (root.join package)).perform workspace with
        ⟨error | created, next⟩
      · rw [hunder] at h
        obtain ⟨-, rfl⟩ := Prod.mk.inj h
        obtain ⟨directories, hcreates, hlists, hfound⟩ := exists_creates_of_ensureUnder hunder
        exact ⟨directories, hcreates, hlists, fun directory hdirectory =>
          ⟨package, List.mem_cons_self, hfound directory hdirectory⟩⟩
      · rw [hunder] at h
        dsimp only at h
        rw [Action.perform_bind] at h
        obtain ⟨outcome', hrest⟩ : ∃ outcome',
            (ensureAll root rest).perform next = (outcome', workspace') := by
          split at h
          next created next hrest =>
            obtain ⟨-, rfl⟩ := Prod.mk.inj h
            exact ⟨_, hrest⟩
          next error next hrest =>
            obtain ⟨-, rfl⟩ := Prod.mk.inj h
            exact ⟨_, hrest⟩
        obtain ⟨directories, hcreates, hlists, hfound⟩ := exists_creates_of_ensureUnder hunder
        obtain ⟨others, hcreates', hlists', hfound'⟩ := ih hrest
        refine ⟨directories ++ others, hcreates.append hcreates', fun place hplace => ?_, ?_⟩
        · exact hlists place (hlists' place hplace)
        · refine List.forall_mem_append.2 ⟨fun directory hdirectory => ?_,
            fun directory hdirectory => ?_⟩
          · exact ⟨package, List.mem_cons_self, hfound directory hdirectory⟩
          · obtain ⟨package', hpackage', names, hnames, hpath⟩ := hfound' directory hdirectory
            -- Markers are no directories, so the directories are those that were there before
            -- the first of them.
            refine ⟨package', List.mem_cons_of_mem _ hpackage', names, ?_, hpath⟩
            rw [FileTree.mem_directoriesUnder_iff] at hnames ⊢
            exact hnames.imp_right (And.imp_right (hlists _))

/-- **Marking packages creates markers, whatever comes of it**, in directories at and below
those of the packages. -/
theorem exists_creates_of_ensure {packages : NameSet} {outcome : Except RunError (List Path)}
    (h : (ensure root packages).perform workspace = (outcome, workspace')) :
    ∃ directories, Creates workspace.files directories workspace'.files ∧
      ∀ directory ∈ directories, ∃ package ∈ packages,
        ∃ names ∈ workspace.files.directoriesUnder (FileTree.placeOf (root.join package)),
          directory = names.foldl Path.join (root.join package) := by
  obtain ⟨directories, hcreates, -, hfound⟩ := exists_creates_of_ensureAll h
  exact ⟨directories, hcreates, hfound⟩

/-! ## Packages that are there -/

theorem perform_ensureEach_ne_walk {places : List Place} {path : Path} {cause : FileError}
    (workspace : Workspace) :
    ((ensureEach root places).perform workspace).1 ≠ .error (.walk path cause) := by
  induction places generalizing workspace with
  | nil => simp [ensureEach]
  | cons names rest ih =>
      rw [ensureEach, Action.perform_bind, Action.perform_get]
      dsimp only
      split
      next files hcreate =>
        rw [Action.perform_bind, Action.perform_set]
        refine Action.perform_bind_ne_error (ih _) fun created next _ => ?_
        simp
      next => exact ih workspace
      next => simp

theorem perform_ensureUnder_ne_walk {path : Path} {cause : FileError}
    (h : workspace.files.isDirectory root = true) :
    ((ensureUnder root).perform workspace).1 ≠ .error (.walk path cause) := by
  obtain ⟨hfollows, hentry⟩ := FileTree.isDirectory_iff.1 h
  rw [ensureUnder, Action.perform_bind, Action.perform_get]
  dsimp only
  rw [FileTree.find_eq_ok_iff.2 ⟨hfollows, rfl, hentry⟩]
  exact perform_ensureEach_ne_walk workspace

theorem perform_ensureAll_ne_walk {packages : List String} {path : Path} {cause : FileError}
    (h : ∀ package ∈ packages, workspace.files.isDirectory (root.join package) = true) :
    ((ensureAll root packages).perform workspace).1 ≠ .error (.walk path cause) := by
  induction packages generalizing workspace with
  | nil => simp [ensureAll]
  | cons package rest ih =>
      rw [List.forall_mem_cons] at h
      rw [ensureAll]
      refine Action.perform_bind_ne_error (perform_ensureUnder_ne_walk h.1)
        fun created next hunder => ?_
      obtain ⟨hadds, -⟩ := adds_of_ensureUnder hunder
      refine Action.perform_bind_ne_error (ih fun other hother => ?_) fun others next' _ => ?_
      · obtain ⟨hfollows, hentry⟩ := FileTree.isDirectory_iff.1 (h.2 other hother)
        exact FileTree.isDirectory_iff.2 ⟨hadds.keeps.follows hfollows,
          hadds.keeps.directory _ hentry⟩
      · simp

/-- **Marking packages that are there never fails for a directory that is not.** -/
theorem perform_ensure_ne_walk {packages : NameSet} {path : Path} {cause : FileError}
    (h : ∀ package ∈ packages, workspace.files.isDirectory (root.join package) = true) :
    ((ensure root packages).perform workspace).1 ≠ .error (.walk path cause) :=
  perform_ensureAll_ne_walk h

end Marker

end AvroBindings
