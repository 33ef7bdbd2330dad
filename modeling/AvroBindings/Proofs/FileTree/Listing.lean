import AvroBindings.Proofs.FileTree.Keeping

/-!
# Directories that are listed

Which directories a tree has, told from its entries, and where operations add some.

## Main Definitions

* `FileTree.Lists` — a place is listed as a directory.
* `FileTree.Extends` — directories are added only where nothing stood.

## Main Statements

* `FileTree.mem_directoriesUnder_iff` — the directories under a place.
* `FileTree.extends_makeDirectories` — making directories extends a tree.
* `FileTree.StoresAll.lists` — storing files adds directories only on the way to one of them.

## Design Notes

A look-up finds the first entry of a place, but all entries are listed.  So what is listed is
told from the entries here, also where one of them is hidden behind another of the same place.
-/

namespace AvroBindings

namespace FileTree

variable {tree next tree' : FileTree} {path : Path} {place : Place}

/-- **A place is listed as a directory.** -/
def Lists (tree : FileTree) (place : Place) : Prop := (place, .directory) ∈ tree.entries

/-- A directory that stands is listed unless it needs no entry. -/
theorem lists_of_get? (hground : isGround place = false)
    (h : tree.get? place = some .directory) :
    tree.Lists place := by
  obtain ⟨before, after, hentries, -⟩ := List.lookup_eq_some_iff.1 (lookup_of_get? hground h)
  rw [Lists, hentries]
  exact List.mem_append_right _ List.mem_cons_self

/-- Something stands where a directory is listed. -/
theorem Lists.ne_none (h : tree.Lists place) : tree.get? place ≠ none := by
  unfold get?
  split
  next => simp
  next =>
    intro hnone
    have hne := List.lookup_eq_none_iff.1 hnone _ h
    simp at hne

/-- The directories under a place are those that are listed, and the place itself if it needs no
entry. -/
theorem mem_directoriesUnder_iff {names : Place} :
    names ∈ tree.directoriesUnder place ↔
      isGround place = true ∧ names = [] ∨ leadsDown names = true ∧
      tree.Lists (place ++ names) := by
  have hfound : names ∈ tree.entries.filterMap (fun listed =>
      if listed.2 = .directory then (place.isPrefixOf? listed.1).filter leadsDown else none) ↔
        leadsDown names = true ∧ tree.Lists (place ++ names) := by
    rw [List.mem_filterMap]
    constructor
    · rintro ⟨⟨p, entry⟩, hmem, hnames⟩
      dsimp only at hnames
      split at hnames
      next hentry =>
        rw [Option.filter_eq_some_iff, List.isPrefixOf?_eq_some_iff_append_eq] at hnames
        obtain ⟨hnames, hdown⟩ := hnames
        rw [Lists, hnames, ← hentry]
        exact ⟨hdown, hmem⟩
      next => contradiction
    · rintro ⟨hdown, hmem⟩
      exact ⟨_, hmem,
        by simp [Option.filter_eq_some_iff, List.isPrefixOf?_eq_some_iff_append_eq, hdown]⟩
  unfold directoriesUnder
  rw [List.mem_mergeSort]
  dsimp only
  split
  next hground =>
    rw [List.mem_cons, and_iff_right hground]
    exact or_congr_right hfound
  next hground =>
    rw [or_iff_right fun h => hground h.1]
    exact hfound

/-- A place is listed as a directory only if it was, or is set as one. -/
theorem lists_of_lists_set {entry : FileEntry} {other : Place}
    (h : (tree.set place entry).Lists other) :
    tree.Lists other ∨ other = place ∧ entry = .directory := by
  obtain ⟨entries⟩ := tree
  unfold Lists set at *
  dsimp only at h ⊢
  induction entries with
  | nil =>
      obtain ⟨rfl, rfl⟩ := Prod.mk.inj (List.mem_singleton.1 h)
      exact .inr ⟨rfl, rfl⟩
  | cons first rest ih =>
      obtain ⟨p, e⟩ := first
      unfold setEntry at h
      split at h
      next heq =>
        rcases List.mem_cons.1 h with hfirst | hrest
        · obtain ⟨rfl, rfl⟩ := Prod.mk.inj hfirst
          exact .inr ⟨heq, rfl⟩
        · exact .inl (List.mem_cons_of_mem _ hrest)
      next =>
        rcases List.mem_cons.1 h with hfirst | hrest
        · exact .inl (hfirst ▸ List.mem_cons_self)
        · exact (ih hrest).imp_left (List.mem_cons_of_mem _)

/-- A file is not listed. -/
theorem lists_of_lists_set_file {content : Content} {other : Place}
    (h : (tree.set place (.file content)).Lists other) :
    tree.Lists other :=
  (lists_of_lists_set h).resolve_right fun h => by simp at h

/-! ## Adding directories -/

/-- **A tree is extended**: directories are added only where nothing stood, and no entry is
taken away. -/
structure Extends (tree tree' : FileTree) : Prop where
  lists : ∀ place, tree'.Lists place → tree.Lists place ∨ tree.get? place = none
  none : ∀ place, tree'.get? place = none → tree.get? place = none

theorem Extends.refl (tree : FileTree) : Extends tree tree := ⟨fun _ => .inl, fun _ => id⟩

theorem Extends.trans (h : Extends tree next) (h' : Extends next tree') :
    Extends tree tree' := by
  refine ⟨fun place hplace => ?_, fun place hnone => h.none place (h'.none place hnone)⟩
  rcases h'.lists place hplace with hplace | hnone
  · exact h.lists place hplace
  · exact .inr (h.none place hnone)

theorem extends_of_makeDirectory (h : tree.makeDirectory path = .ok tree') :
    Extends tree tree' := by
  obtain ⟨target, -, h⟩ := bind_eq_ok_iff.1 h
  cases target with
  | none => contradiction
  | some target =>
      obtain ⟨place, -, h⟩ := bind_eq_ok_iff.1 h
      split at h
      next => contradiction
      next hnone =>
        obtain rfl := Except.ok.inj h
        have hground : isGround place = false := by
          by_contra hground
          rw [get?_of_isGround (by simpa using hground)] at hnone
          contradiction
        refine ⟨fun other hother => ?_, fun other hother => ?_⟩
        · rcases lists_of_lists_set hother with hother | ⟨rfl, -⟩
          · exact .inl hother
          · exact .inr hnone
        · rw [get?_set hground] at hother
          split at hother
          next => contradiction
          next => exact hother

theorem extends_makeFirst (paths : List Path) (tree : FileTree) :
    Extends tree (makeFirst paths tree).2 := by
  induction paths generalizing tree with
  | nil => exact .refl tree
  | cons path parents ih =>
      unfold makeFirst
      split
      next => exact .refl tree
      next =>
        split
        next tree' hmake => exact extends_of_makeDirectory hmake
        next =>
          have hparents := ih tree
          split
          next between hbetween => rwa [hbetween] at hparents
          next between hbetween =>
            rw [hbetween] at hparents
            split
            next tree' hmake => exact hparents.trans (extends_of_makeDirectory hmake)
            next => exact hparents
        next => exact .refl tree

/-- **Making directories extends a tree**, also if it is refused. -/
theorem extends_makeDirectories (tree : FileTree) (path : Path) :
    Extends tree (tree.makeDirectories path).2 :=
  extends_makeFirst _ tree

/-- **Storing a file adds directories only on the way to it**, and only where nothing stood. -/
theorem Stores.lists {text : String} (h : tree.Stores path text tree')
    (hlists : tree'.Lists place) :
    tree.Lists place ∨ place ∈ wayTo path ∧ tree.get? place = none := by
  obtain ⟨init, name, hpieces, hidle, -⟩ := h.endsInName
  obtain ⟨parent, hparent, hmakes, hreached, -⟩ := exists_makes_parent tree hpieces hidle
  obtain ⟨between, hmade, hwrite⟩ := h
  rw [hparent] at hmade
  obtain ⟨-, -, -, rfl⟩ := (writeText_eq_ok_iff hpieces hidle).1 hwrite
  have hbetween : between.Lists place := lists_of_lists_set_file hlists
  have hextends := extends_makeDirectories tree parent
  rw [hmade] at hextends hmakes
  refine (hextends.lists place hbetween).imp_right fun hnone => ⟨(hreached place).1 ?_, hnone⟩
  -- Elsewhere nothing is made, so nothing would stand there.
  by_contra hplace
  refine hbetween.ne_none ?_
  rw [hmakes.2 rfl place, if_neg hplace, hnone]

/-- **Storing files adds directories only on the way to one of them**, and only where nothing
stood. -/
theorem StoresAll.lists {drafts : List Draft} (h : tree.StoresAll drafts tree')
    (hlists : tree'.Lists place) :
    tree.Lists place ∨ (∃ draft ∈ drafts, place ∈ wayTo draft.path) ∧
    tree.get? place = none := by
  induction h with
  | nil tree => exact .inl hlists
  | @cons tree next tree' draft rest first later ih =>
      rw [List.exists_mem_cons_iff]
      rcases ih hlists with hlists | ⟨hway, hnone⟩
      · exact (first.lists hlists).imp_right (And.imp_left .inl)
      · refine .inr ⟨.inr hway, ?_⟩
        by_contra hentry
        obtain ⟨entry, hentry⟩ := Option.ne_none_iff_exists'.1 hentry
        obtain ⟨entry', hentry'⟩ := first.keeps.exists_entry hentry
        rw [hnone] at hentry'
        contradiction

end FileTree

end AvroBindings
