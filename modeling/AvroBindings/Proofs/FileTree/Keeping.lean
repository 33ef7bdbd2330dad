import AvroBindings.Proofs.FileTree.Storing

/-!
# What operations keep

No operation takes an entry away or makes a file a directory or a directory a file.  Some put
another text into a file, and these are told by the places of the files.

## Main Definitions

* `FileTree.Keeps` — all that stands in a tree stands in another, some files with another text.

## Main Statements

* `FileTree.Keeps.follows`, `FileTree.Keeps.readText` — what was found in a tree is found later.
* `FileTree.StoresAll.keeps` — what is kept where files are stored.
-/

namespace AvroBindings

namespace FileTree

variable {changed others : List Place} {tree next tree' : FileTree} {path : Path}
  {place : Place}

/-- **All that stands in a tree stands in another**, but that at some places files may have
another text. -/
structure Keeps (changed : List Place) (tree tree' : FileTree) : Prop where
  directory : ∀ place, tree.get? place = some .directory → tree'.get? place = some .directory
  file : ∀ place content, tree.get? place = some (.file content) →
    ∃ content', tree'.get? place = some (.file content') ∧
    (place ∉ changed → content' = content)

namespace Keeps

theorem refl (tree : FileTree) : Keeps changed tree tree :=
  ⟨fun _ h => h, fun _ content h => ⟨content, h, fun _ => rfl⟩⟩

theorem trans (h : Keeps changed tree next) (h' : Keeps changed next tree') :
    Keeps changed tree tree' := by
  refine ⟨fun place hentry => h'.directory place (h.directory place hentry),
    fun place content hentry => ?_⟩
  obtain ⟨content', hentry', hsame⟩ := h.file place content hentry
  obtain ⟨content'', hentry'', hsame'⟩ := h'.file place content' hentry'
  exact ⟨content'', hentry'', fun hplace => (hsame' hplace).trans (hsame hplace)⟩

theorem mono (h : Keeps changed tree tree') (hsubset : changed ⊆ others) :
    Keeps others tree tree' := by
  refine ⟨h.directory, fun place content hentry => ?_⟩
  obtain ⟨content', hentry', hsame⟩ := h.file place content hentry
  exact ⟨content', hentry', fun hplace => hsame (mt (@hsubset place) hplace)⟩

section Keeps

variable (h : Keeps changed tree tree')

include h

/-- Something stands where something stood. -/
theorem exists_entry {entry : FileEntry} (hentry : tree.get? place = some entry) :
    ∃ entry', tree'.get? place = some entry' := by
  cases entry with
  | directory => exact ⟨_, h.directory place hentry⟩
  | file content =>
      obtain ⟨content', hentry', -⟩ := h.file place content hentry
      exact ⟨_, hentry'⟩

/-- What stands at a place that is not one of those stands there as it was. -/
theorem get?_eq {entry : FileEntry} (hplace : place ∉ changed)
    (hentry : tree.get? place = some entry) :
    tree'.get? place = some entry := by
  cases entry with
  | directory => exact h.directory place hentry
  | file content =>
      obtain ⟨content', hentry', hsame⟩ := h.file place content hentry
      rw [hentry', hsame hplace]

/-- **A path that could be followed can be followed still.** -/
theorem follows (hfollows : tree.Follows path) : tree'.Follows path :=
  ⟨hfollows.valid, hfollows.fits,
    fun place hplace => h.directory place (hfollows.passes place hplace)⟩

/-- **A text that was read is read again** unless it was changed. -/
theorem readText {text : String} (hread : tree.readText path = .ok text)
    (hplace : placeOf path ∉ changed) :
    tree'.readText path = .ok text := by
  obtain ⟨hfollows, hentry⟩ := readText_eq_ok_iff.1 hread
  obtain ⟨content, hentry', hsame⟩ := h.file _ _ hentry
  exact readText_eq_ok_iff.2 ⟨h.follows hfollows, hsame hplace ▸ hentry'⟩

end Keeps

/-- An entry where nothing stood changes nothing else. -/
theorem set_new {entry : FileEntry} (hground : isGround place = false)
    (hnone : tree.get? place = none) :
    Keeps [] tree (tree.set place entry) := by
  have hother : ∀ other entry', tree.get? other = some entry' →
      (tree.set place entry).get? other = some entry' := by
    intro other entry' hentry
    rw [get?_set hground, if_neg]
    · exact hentry
    · rintro rfl
      rw [hnone] at hentry
      contradiction
  exact ⟨fun other => hother other _,
    fun other content hentry => ⟨content, hother other _ hentry, fun _ => rfl⟩⟩

/-- A file where no directory stood is the only change. -/
theorem set_file {content : Content} (hground : isGround place = false)
    (hfree : tree.get? place ≠ some .directory) :
    Keeps [place] tree (tree.set place (.file content)) := by
  refine ⟨fun other hentry => ?_, fun other content' hentry => ?_⟩
  · rw [get?_set hground, if_neg]
    · exact hentry
    · rintro rfl
      exact hfree hentry
  · rw [get?_set hground]
    by_cases hplace : other = place
    · exact ⟨content, if_pos hplace, fun hmem => absurd (List.mem_singleton.2 hplace) hmem⟩
    · exact ⟨content', (if_neg hplace).trans hentry, fun _ => rfl⟩

end Keeps

/-! ## Storing files -/

/-- A file that is stored is the only one that is changed. -/
theorem Stores.keeps {text : String} (h : tree.Stores path text tree') :
    Keeps [placeOf path] tree tree' := by
  obtain ⟨hready, hfile, hway, hkept⟩ := h.ready_and_holds
  refine ⟨fun place hentry => ?_, fun place content hentry => ?_⟩
  · by_cases hmem : place ∈ wayTo path
    · exact hway place hmem
    · rw [hkept place ?_ hmem, hentry]
      rintro rfl
      exact hready.free hentry
  · by_cases hplace : place = placeOf path
    · exact ⟨_, hplace ▸ hfile, fun hmem => absurd (List.mem_singleton.2 hplace) hmem⟩
    · have hmem : place ∉ wayTo path := fun hmem => hready.clear place hmem content hentry
      exact ⟨content, (hkept place hplace hmem).trans hentry, fun _ => rfl⟩

/-- **Of all files those that are stored are changed.** -/
theorem StoresAll.keeps {drafts : List Draft} (h : tree.StoresAll drafts tree') :
    Keeps (places drafts) tree tree' := by
  induction h with
  | nil tree => exact .refl tree
  | cons first _ ih =>
      refine (first.keeps.mono ?_).trans (ih.mono ?_)
      · simp [places]
      · simp [places]

end FileTree

end AvroBindings
