import AvroBindings.Proofs.FileTree.Listing

/-!
# Names of entries

An entry has a name that is not empty, has no slash in it and is neither of the two that stand
for directories.  Such names lead downwards only.

## Main Definitions

* `FileTree.IsEntryName` — a text that an entry can have as its name.
* `FileTree.IsProperPlace` — a place that such names lead to.
* `FileTree.IsProper` — all directories of a tree stand at such places.

## Main Statements

* `FileTree.isProperPlace_of_mem_reached` — a path leads to such places only.
* `FileTree.mem_directoriesUnder_iff_isEntryName` — the directories under a place of a proper
  tree.
* `FileTree.StoresAll.isProper` — storing files leaves a tree proper.

## Design Notes

A file tree is a list of entries by place, and nothing keeps a place in it from having names
that no file has.  What is told of directories that a run did not make needs to know that theirs
are names.
-/

namespace AvroBindings

open AvroBindings.Path (IsIdle IsName)

namespace FileTree

variable {tree tree' : FileTree} {place : Place} {name : String} {names pieces : List String}

/-- **An entry can have a name**: it is a name in a path, and it leads to neither of the
directories there already. -/
def IsEntryName (name : String) : Prop := IsName name ∧ ¬IsIdle name ∧ name ≠ ".."

/-- **A place that an entry can have**: names of entries lead to it from one that needs no
entry. -/
def IsProperPlace (place : Place) : Prop :=
  ∃ ground names, isGround ground = true ∧ place = ground ++ names ∧
    ∀ name ∈ names, IsEntryName name

/-- **All directories of a tree are listed at places that entries can have.** -/
def IsProper (tree : FileTree) : Prop := ∀ place, tree.Lists place → IsProperPlace place

theorem isProperPlace_of_isGround (h : isGround place = true) : IsProperPlace place :=
  ⟨place, [], h, (List.append_nil _).symm, by simp⟩

theorem IsProperPlace.append (h : IsProperPlace place)
    (hnames : ∀ name ∈ names, IsEntryName name) :
    IsProperPlace (place ++ names) := by
  obtain ⟨ground, before, hground, rfl, hbefore⟩ := h
  exact ⟨ground, before ++ names, hground, List.append_assoc _ _ _,
    List.forall_mem_append.2 ⟨hbefore, hnames⟩⟩

/-- A place that has the name of an entry needs one. -/
theorem isGround_eq_false (hmem : name ∈ place) (hname : IsEntryName name) :
    isGround place = false := by
  rw [isGround, Bool.or_eq_false_iff, beq_eq_false_iff_ne]
  refine ⟨?_, ?_⟩
  · rw [List.all_eq_false]
    exact ⟨name, hmem, by simpa using hname.2.2⟩
  · rintro rfl
    obtain rfl := List.mem_singleton.1 hmem
    exact absurd (by decide) hname.1.2

/-- The directory above a proper place is at a proper place. -/
theorem IsProperPlace.above (h : IsProperPlace place) : IsProperPlace (above place) := by
  unfold FileTree.above
  split
  next => exact h
  next hroot =>
    split
    next hup =>
      refine isProperPlace_of_isGround ?_
      rw [isGround, List.all_append, hup]
      rfl
    next hup =>
      obtain ⟨ground, names, hground, rfl, hnames⟩ := h
      rcases List.eq_nil_or_concat' names with rfl | ⟨before, last, rfl⟩
      · rw [List.append_nil] at hroot hup
        rw [isGround, Bool.or_eq_true] at hground
        exact absurd hground (not_or.2 ⟨hup, hroot⟩)
      · rw [← List.append_assoc, List.dropLast_concat]
        exact ⟨ground, before, hground, rfl,
          fun name hname => hnames name (List.mem_append_left _ hname)⟩

/-- **A path leads to proper places only.** -/
theorem isProperPlace_of_mem_reached {start : Place} (hstart : IsProperPlace start)
    (hpieces : ∀ piece ∈ pieces, '/' ∉ piece.toList) (h : place ∈ reached start pieces) :
    IsProperPlace place := by
  induction pieces generalizing start with
  | nil => exact List.mem_singleton.1 h ▸ hstart
  | cons piece rest ih =>
      rw [List.forall_mem_cons] at hpieces
      have hnext : IsProperPlace (step start piece) := by
        unfold step
        split
        next => exact hstart
        next hidle =>
          split
          next => exact hstart.above
          next hup =>
            have hplain : ¬IsIdle piece := by rwa [← Path.isEmpty_or_dot_iff]
            have hname : IsEntryName piece :=
              ⟨⟨fun hempty => hplain (.inl hempty), hpieces.1⟩, hplain, by simpa using hup⟩
            exact hstart.append (List.forall_mem_singleton.2 hname)
      have hsplit : reached start (piece :: rest) = start :: reached (step start piece) rest :=
        rfl
      rw [hsplit, List.mem_cons] at h
      rcases h with rfl | h
      · exact hstart
      · exact ih hnext hpieces.2 h

/-- A path passes proper places only. -/
theorem isProperPlace_of_mem_wayTo {path : Path} (h : place ∈ wayTo path) :
    IsProperPlace place :=
  isProperPlace_of_mem_reached (isProperPlace_of_isGround (isGround_startOf path))
    (Path.slash_notMem_of_mem_pieces path) (mem_reached.2 (.inl h))

/-- Names of entries lead down. -/
theorem leadsDown_of_isEntryName (h : ∀ name ∈ names, IsEntryName name) :
    leadsDown names = true := by
  cases names with
  | nil => rfl
  | cons name rest =>
      obtain ⟨hname, -, hup⟩ := h name List.mem_cons_self
      have hslash : name ≠ "/" := by
        rintro rfl
        exact absurd (by decide) hname.2
      simp [leadsDown, hup, hslash]

/-- A place that needs no entry goes on with none of the names that lead down. -/
theorem leadsDown_eq_false {more : Place} (h : isGround (place ++ name :: more) = true) :
    leadsDown (name :: names) = false := by
  rw [isGround, Bool.or_eq_true, List.all_eq_true, beq_iff_eq] at h
  rcases h with hup | hroot
  · have hname := hup name (List.mem_append_right _ List.mem_cons_self)
    rw [beq_iff_eq] at hname
    simp [leadsDown, hname]
  · obtain rfl : name = "/" := by
      have hmem : name ∈ ["/"] := hroot ▸ List.mem_append_right _ List.mem_cons_self
      exact List.mem_singleton.1 hmem
    simp [leadsDown]

/-- Names that lead down to a place that an entry can have are names of entries. -/
theorem IsProperPlace.isEntryName (h : IsProperPlace (place ++ names))
    (hdown : leadsDown names = true) :
    ∀ name ∈ names, IsEntryName name := by
  obtain ⟨ground, below, hground, hplace, hbelow⟩ := h
  rcases List.append_eq_append_iff.1 hplace with ⟨inner, rfl, rfl⟩ | ⟨inner, -, rfl⟩
  · cases inner with
    | nil => exact hbelow
    | cons first rest =>
        rw [List.cons_append, leadsDown_eq_false hground] at hdown
        contradiction
  · exact fun name hname => hbelow name (List.mem_append_right _ hname)

/-- **The directories under a place are those that names of entries lead to**, where directories
have names: the place itself if it needs no entry, and those that are listed. -/
theorem mem_directoriesUnder_iff_isEntryName (hproper : tree.IsProper) :
    names ∈ tree.directoriesUnder place ↔
      (∀ name ∈ names, IsEntryName name) ∧
      (isGround place = true ∧ names = [] ∨ tree.Lists (place ++ names)) := by
  rw [mem_directoriesUnder_iff]
  constructor
  · rintro (⟨hground, rfl⟩ | ⟨hdown, hlists⟩)
    · exact ⟨by simp, .inl ⟨hground, rfl⟩⟩
    · exact ⟨(hproper _ hlists).isEntryName hdown, .inr hlists⟩
  · rintro ⟨hentries, hground | hlists⟩
    · exact .inl hground
    · exact .inr ⟨leadsDown_of_isEntryName hentries, hlists⟩

/-- **Names of entries lead from a path to the place below.** -/
theorem placeOf_foldl_join {root : Path} (h : ∀ name ∈ names, IsEntryName name) :
    placeOf (names.foldl Path.join root) = placeOf root ++ names := by
  by_cases hnames : names = []
  · rw [hnames, List.foldl_nil, List.append_nil]
  · rw [Path.foldl_join_eq (fun name hname => (h name hname).1) hnames]
    exact placeOf_join (fun name hname => (h name hname).1)
      (fun name hname => (h name hname).2) hnames

/-- **Storing files leaves a tree proper.** -/
theorem StoresAll.isProper {drafts : List Draft} (h : tree.StoresAll drafts tree')
    (hproper : tree.IsProper) :
    tree'.IsProper := by
  intro place hlists
  rcases h.lists hlists with hlists | ⟨⟨draft, -, hway⟩, -⟩
  · exact hproper place hlists
  · exact isProperPlace_of_mem_wayTo hway

end FileTree

end AvroBindings
