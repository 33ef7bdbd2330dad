import AvroBindings.Proofs.FileTree.Directories

/-!
# Storing files

A file is written after the directories on its way are made.  The places on the way and its own
decide whether this is done, and nothing else is changed.

## Main Definitions

* `FileTree.Stores` — a text is stored under a path, the directories above it made first.
* `FileTree.Ready`, `FileTree.Holds` — a file can be stored under a path; a tree with the file.
* `FileTree.Draft`, `FileTree.StoresAll` — a text with its path; several are stored one after
  another.

## Main Statements

* `FileTree.Stores.ready_and_holds`, `FileTree.Ready.exists_stores` — when a file is stored, and
  what that changes.
* `FileTree.Follows.stores` — storing a file where its directories are there.
* `FileTree.exists_storesAll_iff` — when several files are stored.
* `FileTree.StoresAll.get?_eq_last`, `FileTree.StoresAll.get?_eq_directory` — what stands there
  afterwards.
* `FileTree.StoresAll.get?_cases` — what has changed by then.
* `FileTree.StoresAll.exists_of_perm` — files in places of their own can be stored in any order.

## Design Notes

Whether several files can be stored is told from the tree before the first of them, so their
order is left out of it.
-/

namespace AvroBindings

open AvroBindings.Path (IsIdle)

namespace FileTree

variable {tree tree' : FileTree} {path : Path} {place : Place} {init : List String}
  {name : String}

/-! ## Files -/

/-- **A text is stored under a path**: the directories above the path are made, then the file is
written. -/
def Stores (tree : FileTree) (path : Path) (text : String) (tree' : FileTree) : Prop :=
  ∃ between, (match path.parent? with
    | some parent => tree.makeDirectories parent = (none, between)
    | none => between = tree) ∧ between.writeText path text = .ok tree'

/-- **A file can be stored under a path**: it is a path, no name in it is too long, no file
stands on the way, no directory stands at its place, and the way does not lead through its
place. -/
structure Ready (tree : FileTree) (path : Path) : Prop where
  valid : checkPath path = .ok ()
  fits : ∀ piece ∈ path.pieces, piece.utf8ByteSize ≤ nameLimit
  clear : ∀ place ∈ wayTo path, ∀ content, tree.get? place ≠ some (.file content)
  free : tree.get? (placeOf path) ≠ some .directory
  apart : placeOf path ∉ wayTo path

/-- **What a stored file changes**: the file stands at its place, directories stand on the way,
and what stood elsewhere stands there still. -/
structure Holds (tree : FileTree) (path : Path) (text : String) (tree' : FileTree) : Prop where
  file : tree'.get? (placeOf path) = some (.file (.text text))
  way : ∀ place ∈ wayTo path, tree'.get? place = some .directory
  kept : ∀ place, place ≠ placeOf path → place ∉ wayTo path → tree'.get? place = tree.get? place

section Stores

variable {text : String}

/-- The directories above a name are those that its path passes. -/
theorem exists_makes_parent (tree : FileTree) (h : path.pieces = init ++ [name])
    (hname : ¬IsIdle name) :
    ∃ parent, path.parent? = some parent ∧ tree.Makes parent (tree.makeDirectories parent) ∧
      (∀ place, place ∈ reached (startOf parent) parent.pieces ↔ place ∈ wayTo path) ∧
      (tree.Ready path → tree.Admits parent) := by
  obtain ⟨parent, hparent, hsettles, hreached, hfits, hvalid⟩ := exists_above h hname
  have hkind := (hsettles _ (Nat.le_refl _)).imp And.left And.left
  refine ⟨parent, hparent, makes_makeDirectories hkind, hreached,
    fun hready => ⟨hvalid hready.valid, ?_, ?_⟩⟩
  · exact hfits.2 fun piece hpiece => hready.fits piece (h ▸ List.mem_append_left _ hpiece)
  · exact fun place hplace => hready.clear place ((hreached place).1 hplace)

theorem Stores.endsInName (h : tree.Stores path text tree') : EndsInName path := by
  obtain ⟨between, -, hwrite⟩ := h
  exact endsInName_of_writeText hwrite

/-- **What storing a file does**: it could be stored, and it is held. -/
theorem Stores.ready_and_holds (hstores : tree.Stores path text tree') :
    tree.Ready path ∧ tree.Holds path text tree' := by
  obtain ⟨init, name, h, hname, -⟩ := hstores.endsInName
  obtain ⟨parent, hparent, hmakes, hreached, -⟩ := exists_makes_parent tree h hname
  obtain ⟨between, hmade, hwrite⟩ := hstores
  rw [hparent] at hmade
  obtain ⟨hfollows, hup, hnone, rfl⟩ := (writeText_eq_ok_iff h hname).1 hwrite
  rw [hmade] at hmakes
  have hopened : tree.Opened parent between := hmakes.2 rfl
  have hkept : ∀ place, place ∉ wayTo path → between.get? place = tree.get? place := by
    intro place hplace
    rw [hopened place, if_neg (mt (hreached place).1 hplace)]
  have hapart : placeOf path ∉ wayTo path := fun hway => hnone (hfollows.passes _ hway)
  have hset : ∀ place, (between.set (placeOf path) (.file (.text text))).get? place =
      if place = placeOf path then some (.file (.text text)) else between.get? place :=
    fun place => get?_set (isGround_placeOf h hname hup)
  refine ⟨⟨hfollows.valid, hfollows.fits, fun place hplace => ?_, hkept _ hapart ▸ hnone,
    hapart⟩, (hset _).trans (if_pos rfl), fun place hway => ?_, fun place hne hway => ?_⟩
  · exact (hmakes.1.1 rfl).clear place ((hreached place).2 hplace)
  · have hne : place ≠ placeOf path := fun heq => hapart (heq ▸ hway)
    rw [hset, if_neg hne]
    exact hfollows.passes place hway
  · rw [hset, if_neg hne]
    exact hkept place hway

/-- **A file is stored where it can be.** -/
theorem Ready.exists_stores (h : path.pieces = init ++ [name]) (hname : ¬IsIdle name)
    (hup : name ≠ "..") (hready : tree.Ready path) (text : String) :
    ∃ tree', tree.Stores path text tree' := by
  obtain ⟨parent, hparent, hmakes, hreached, hadmits⟩ := exists_makes_parent tree h hname
  have hmade := hmakes.1.2 (hadmits hready)
  have hopened := hmakes.2 hmade
  generalize hbetween : tree.makeDirectories parent = outcome at hmade hopened
  obtain ⟨refusal, between⟩ := outcome
  obtain rfl : refusal = none := hmade
  have hpasses : ∀ place ∈ wayTo path, between.get? place = some .directory := by
    intro place hplace
    rw [hopened place, if_pos ((hreached place).2 hplace)]
  have hfree : between.get? (placeOf path) ≠ some .directory := by
    rw [hopened (placeOf path), if_neg (mt (hreached _).1 hready.apart)]
    exact hready.free
  refine ⟨between.set (placeOf path) (.file (.text text)), between, ?_,
    (writeText_eq_ok_iff h hname).2 ?_⟩
  · rw [hparent]
    exact hbetween
  · exact ⟨⟨hready.valid, hready.fits, hpasses⟩, hup, hfree, rfl⟩

/-- **Where the directories on the way are there, the file is all that is written.** -/
theorem Follows.stores (h : path.pieces = init ++ [name]) (hname : ¬IsIdle name)
    (hup : name ≠ "..") (hfollows : tree.Follows path)
    (hfree : tree.get? (placeOf path) ≠ some .directory) (text : String) :
    tree.Stores path text (tree.set (placeOf path) (.file (.text text))) := by
  obtain ⟨parent, hparent, hsettles, hreached, hfits, hvalid⟩ := exists_above h hname
  have hkind := (hsettles _ (Nat.le_refl _)).imp And.left And.left
  have hthere : ∀ place ∈ reached (startOf parent) parent.pieces,
      tree.get? place = some .directory :=
    fun place hplace => hfollows.passes place ((hreached place).1 hplace)
  have hadmits : tree.Admits parent := by
    refine ⟨hvalid hfollows.valid, hfits.2 fun piece hpiece => ?_,
      fun place hplace content => ?_⟩
    · exact hfollows.fits piece (h ▸ List.mem_append_left _ hpiece)
    · rw [hthere place hplace]
      simp
  refine ⟨tree, ?_, (writeText_eq_ok_iff h hname).2 ⟨hfollows, hup, hfree, rfl⟩⟩
  rw [hparent]
  exact makeDirectories_eq_self hkind hadmits hthere

end Stores

/-! ## Several files -/

/-- Of the items that a function takes to the same there is a last one. -/
theorem exists_last_of_mem {α β : Type} (f : α → β) {items : List α} (item : α)
    (h : item ∈ items) :
    ∃ before last after, items = before ++ last :: after ∧ f last = f item ∧
      ∀ other ∈ after, f other ≠ f item := by
  induction items generalizing item with
  | nil => simp at h
  | cons first rest ih =>
      by_cases hlater : ∃ other ∈ rest, f other = f item
      · obtain ⟨other, hother, heq⟩ := hlater
        obtain ⟨before, last, after, rfl, hlast, hafter⟩ := ih other hother
        exact ⟨first :: before, last, after, rfl, hlast.trans heq,
          fun later hmem => heq ▸ hafter later hmem⟩
      · have hlater' : ∀ other ∈ rest, f other ≠ f item :=
          fun other hother heq => hlater ⟨other, hother, heq⟩
        obtain rfl : item = first := (List.mem_cons.1 h).resolve_right fun hmem =>
          hlater' item hmem rfl
        exact ⟨[], item, rest, rfl, rfl, hlater'⟩

/-- A text, and the path that it is stored under. -/
structure Draft where
  path : Path
  text : String

/-- The places of several files. -/
def places (drafts : List Draft) : List Place := drafts.map fun draft => placeOf draft.path

theorem mem_places {drafts : List Draft} :
    place ∈ places drafts ↔ ∃ draft ∈ drafts, placeOf draft.path = place :=
  List.mem_map

theorem places_append {drafts others : List Draft} :
    places (drafts ++ others) = places drafts ++ places others :=
  List.map_append

/-- **Files are stored one after another.** -/
inductive StoresAll : FileTree → List Draft → FileTree → Prop
  | nil (tree : FileTree) : StoresAll tree [] tree
  | cons {tree between tree' : FileTree} {draft : Draft} {rest : List Draft}
      (first : tree.Stores draft.path draft.text between)
      (others : StoresAll between rest tree') : StoresAll tree (draft :: rest) tree'

theorem storesAll_cons_iff {draft : Draft} {rest : List Draft} :
    tree.StoresAll (draft :: rest) tree' ↔
      ∃ between, tree.Stores draft.path draft.text between ∧ between.StoresAll rest tree' := by
  constructor
  · rintro (_ | ⟨first, others⟩)
    exact ⟨_, first, others⟩
  · rintro ⟨between, first, others⟩
    exact .cons first others

theorem storesAll_append_iff {before after : List Draft} :
    tree.StoresAll (before ++ after) tree' ↔
      ∃ between, tree.StoresAll before between ∧ between.StoresAll after tree' := by
  induction before generalizing tree with
  | nil =>
      constructor
      · intro h
        exact ⟨tree, .nil tree, h⟩
      · rintro ⟨_, ⟨⟩, h⟩
        exact h
  | cons draft rest ih =>
      rw [List.cons_append, storesAll_cons_iff]
      simp only [storesAll_cons_iff, ih]
      constructor
      · rintro ⟨next, first, between, hrest, hafter⟩
        exact ⟨between, ⟨next, first, hrest⟩, hafter⟩
      · rintro ⟨between, ⟨next, first, hrest⟩, hafter⟩
        exact ⟨next, first, between, hrest, hafter⟩

/-- **One file is in another's way** only if it stands on the other's way, or the other's place
is on its own. -/
theorem Holds.ready_iff {text : String} (hholds : tree.Holds path text tree')
    (hready : tree.Ready path) (other : Path) :
    tree'.Ready other ↔ tree.Ready other ∧ placeOf path ∉ wayTo other ∧
    placeOf other ∉ wayTo path := by
  obtain ⟨hplace, hway, hkept⟩ := hholds
  constructor
  · rintro ⟨hvalid, hfits, hclear, hfree, hapart⟩
    have hout : placeOf path ∉ wayTo other := fun hmem => hclear _ hmem _ hplace
    have hout' : placeOf other ∉ wayTo path := fun hmem => hfree (hway _ hmem)
    refine ⟨⟨hvalid, hfits, fun place hmem => ?_, ?_, hapart⟩, hout, hout'⟩
    · by_cases hmem' : place ∈ wayTo path
      · exact hready.clear place hmem'
      · exact hkept place (fun heq => hout (heq ▸ hmem)) hmem' ▸ hclear place hmem
    · by_cases heq : placeOf other = placeOf path
      · exact heq ▸ hready.free
      · exact hkept _ heq hout' ▸ hfree
  · rintro ⟨⟨hvalid, hfits, hclear, hfree, hapart⟩, hout, hout'⟩
    refine ⟨hvalid, hfits, fun place hmem content => ?_, ?_, hapart⟩
    · by_cases hmem' : place ∈ wayTo path
      · rw [hway place hmem']
        simp
      · exact hkept place (fun heq => hout (heq ▸ hmem)) hmem' ▸ hclear place hmem content
    · by_cases heq : placeOf other = placeOf path
      · rw [heq, hplace]
        simp
      · exact hkept _ heq hout' ▸ hfree

variable {drafts : List Draft}

theorem StoresAll.endsInName (h : tree.StoresAll drafts tree') :
    ∀ draft ∈ drafts, EndsInName draft.path := by
  induction h with
  | nil tree => simp
  | cons first _ ih => exact List.forall_mem_cons.2 ⟨first.endsInName, ih⟩

/-- **Files can be stored one after another exactly if each can be stored and none stands on the
way to another.**  The order of the files does not matter for this. -/
theorem exists_storesAll_iff (hnames : ∀ draft ∈ drafts, EndsInName draft.path) :
    (∃ tree', tree.StoresAll drafts tree') ↔
      (∀ draft ∈ drafts, tree.Ready draft.path) ∧
        ∀ draft ∈ drafts, ∀ other ∈ drafts, placeOf draft.path ∉ wayTo other.path := by
  induction drafts generalizing tree with
  | nil => exact iff_of_true ⟨tree, .nil tree⟩ ⟨by simp, by simp⟩
  | cons draft rest ih =>
      rw [List.forall_mem_cons] at hnames
      obtain ⟨init, name, hpieces, hname, hup⟩ := hnames.1
      constructor
      · rintro ⟨tree', hstores⟩
        obtain ⟨between, first, others⟩ := storesAll_cons_iff.1 hstores
        obtain ⟨hready, hholds⟩ := first.ready_and_holds
        obtain ⟨hrest, hpairs⟩ := (ih hnames.2).1 ⟨tree', others⟩
        have hsplit := fun other hother => (hholds.ready_iff hready _).1 (hrest other hother)
        refine
          ⟨List.forall_mem_cons.2 ⟨hready, fun other hother => (hsplit other hother).1⟩, ?_⟩
        intro one hone other hother
        rcases List.mem_cons.1 hone with rfl | hone'
        · rcases List.mem_cons.1 hother with rfl | hother'
          · exact hready.apart
          · exact (hsplit other hother').2.1
        · rcases List.mem_cons.1 hother with rfl | hother'
          · exact (hsplit one hone').2.2
          · exact hpairs one hone' other hother'
      · rintro ⟨hall, hpairs⟩
        rw [List.forall_mem_cons] at hall
        obtain ⟨between, first⟩ := hall.1.exists_stores hpieces hname hup draft.text
        obtain ⟨-, hholds⟩ := first.ready_and_holds
        have hrest : ∀ other ∈ rest, between.Ready other.path := by
          intro other hother
          refine (hholds.ready_iff hall.1 _).2 ⟨hall.2 other hother, ?_, ?_⟩
          · exact hpairs draft List.mem_cons_self other (List.mem_cons_of_mem _ hother)
          · exact hpairs other (List.mem_cons_of_mem _ hother) draft List.mem_cons_self
        obtain ⟨tree', others⟩ := (ih hnames.2).2 ⟨hrest, fun one hone other hother =>
          hpairs one (List.mem_cons_of_mem _ hone) other (List.mem_cons_of_mem _ hother)⟩
        exact ⟨tree', .cons first others⟩

/-- **What stands nowhere on the way and at no place of several files stands there still.** -/
theorem StoresAll.get?_eq_of_untouched (h : tree.StoresAll drafts tree')
    (hplace : ∀ draft ∈ drafts, place ≠ placeOf draft.path ∧ place ∉ wayTo draft.path) :
    tree'.get? place = tree.get? place := by
  induction h with
  | nil tree => rfl
  | cons first _ ih =>
      rw [List.forall_mem_cons] at hplace
      rw [ih hplace.2]
      exact (first.ready_and_holds).2.kept place hplace.1.1 hplace.1.2

/-- **Directories stand on the way to each of several files.** -/
theorem StoresAll.get?_eq_directory (h : tree.StoresAll drafts tree') {draft : Draft}
    (hdraft : draft ∈ drafts) (hway : place ∈ wayTo draft.path) :
    tree'.get? place = some .directory := by
  obtain ⟨-, hpairs⟩ := (exists_storesAll_iff h.endsInName).1 ⟨tree', h⟩
  induction h generalizing draft with
  | nil tree => simp at hdraft
  | @cons tree between tree' first rest hfirst others ih =>
      have hrest : ∀ one ∈ rest, ∀ other ∈ rest, placeOf one.path ∉ wayTo other.path :=
        fun one hone other hother =>
        hpairs one (List.mem_cons_of_mem _ hone) other (List.mem_cons_of_mem _ hother)
      by_cases hlater : ∃ other ∈ rest, place ∈ wayTo other.path
      · obtain ⟨other, hother, hway'⟩ := hlater
        exact ih hother hway' hrest
      · obtain rfl : draft = first := (List.mem_cons.1 hdraft).resolve_right fun hmem =>
          hlater ⟨draft, hmem, hway⟩
        have huntouched : ∀ other ∈ rest, place ≠ placeOf other.path ∧
            place ∉ wayTo other.path := by
          intro other hother
          refine ⟨?_, fun hway' => hlater ⟨other, hother, hway'⟩⟩
          rintro rfl
          exact hpairs other (List.mem_cons_of_mem _ hother) draft List.mem_cons_self hway
        rw [others.get?_eq_of_untouched huntouched]
        exact (hfirst.ready_and_holds).2.way place hway

/-- **What storing several files changes**: a place is as it was, or one of the files is there,
or nothing was there and a directory is made on the way to one of them. -/
theorem StoresAll.get?_cases (h : tree.StoresAll drafts tree') (place : Place) :
    tree'.get? place = tree.get? place ∨ (∃ draft ∈ drafts, place = placeOf draft.path) ∨
      (∃ draft ∈ drafts, place ∈ wayTo draft.path) ∧ tree.get? place = none ∧
        tree'.get? place = some .directory := by
  by_cases hplace : ∃ draft ∈ drafts, place = placeOf draft.path
  · exact .inr (.inl hplace)
  · by_cases hway : ∃ draft ∈ drafts, place ∈ wayTo draft.path
    · obtain ⟨draft, hdraft, hmem⟩ := hway
      have hready := ((exists_storesAll_iff h.endsInName).1 ⟨tree', h⟩).1 draft hdraft
      have hdirectory := h.get?_eq_directory hdraft hmem
      cases hentry : tree.get? place with
      | none => exact .inr (.inr ⟨⟨draft, hdraft, hmem⟩, rfl, hdirectory⟩)
      | some entry =>
          cases entry with
          | directory => exact .inl hdirectory
          | file content => exact absurd hentry (hready.clear place hmem content)
    · exact .inl (h.get?_eq_of_untouched fun draft hdraft =>
        ⟨fun hsame => hplace ⟨draft, hdraft, hsame⟩, fun hmem => hway ⟨draft, hdraft, hmem⟩⟩)

/-- The path of a stored file can be followed afterwards. -/
theorem StoresAll.follows (h : tree.StoresAll drafts tree') {draft : Draft}
    (hdraft : draft ∈ drafts) :
    tree'.Follows draft.path := by
  have hready := ((exists_storesAll_iff h.endsInName).1 ⟨tree', h⟩).1 draft hdraft
  exact ⟨hready.valid, hready.fits, fun place hway => h.get?_eq_directory hdraft hway⟩

/-- **The last of several files at one place is held.** -/
theorem StoresAll.get?_eq_last {before after : List Draft} {draft : Draft}
    (h : tree.StoresAll (before ++ draft :: after) tree')
    (hlast : ∀ other ∈ after, placeOf other.path ≠ placeOf draft.path) :
    tree'.get? (placeOf draft.path) = some (.file (.text draft.text)) := by
  obtain ⟨between, -, hlater⟩ := storesAll_append_iff.1 h
  obtain ⟨-, hpairs⟩ := (exists_storesAll_iff hlater.endsInName).1 ⟨tree', hlater⟩
  obtain ⟨next, first, others⟩ := storesAll_cons_iff.1 hlater
  have huntouched : ∀ other ∈ after, placeOf draft.path ≠ placeOf other.path ∧
      placeOf draft.path ∉ wayTo other.path :=
    fun other hother => ⟨(hlast other hother).symm,
      hpairs draft List.mem_cons_self other (List.mem_cons_of_mem _ hother)⟩
  rw [others.get?_eq_of_untouched huntouched]
  exact (first.ready_and_holds).2.file

/-- **Each of several files is held** if none at its place has another text. -/
theorem StoresAll.get?_eq_file (h : tree.StoresAll drafts tree') {draft : Draft}
    (hdraft : draft ∈ drafts)
    (halone : ∀ other ∈ drafts, placeOf other.path = placeOf draft.path →
      other.text = draft.text) :
    tree'.get? (placeOf draft.path) = some (.file (.text draft.text)) := by
  obtain ⟨before, last, after, rfl, hplace, hlast⟩ :=
    exists_last_of_mem (fun other : Draft => placeOf other.path) draft hdraft
  rw [← hplace, ← halone last (List.mem_append_right _ List.mem_cons_self) hplace]
  exact h.get?_eq_last fun other hother heq => hlast other hother (heq.trans hplace)

/-- **Files in places of their own can be stored in any order**, and the same stands everywhere
afterwards. -/
theorem StoresAll.exists_of_perm {others : List Draft} (h : tree.StoresAll drafts tree')
    (hperm : others.Perm drafts)
    (halone : ∀ draft ∈ drafts, ∀ other ∈ drafts, placeOf other.path = placeOf draft.path →
      other.text = draft.text) :
    ∃ tree'', tree.StoresAll others tree'' ∧ ∀ place, tree''.get? place = tree'.get? place := by
  have hnames : ∀ draft ∈ others, EndsInName draft.path := fun draft hdraft =>
    h.endsInName draft (hperm.subset hdraft)
  obtain ⟨hready, hpairs⟩ := (exists_storesAll_iff h.endsInName).1 ⟨tree', h⟩
  obtain ⟨tree'', h'⟩ :=
    (exists_storesAll_iff hnames).2 ⟨fun draft hdraft => hready draft (hperm.subset hdraft),
      fun one hone other hother => hpairs one (hperm.subset hone) other (hperm.subset hother)⟩
  refine ⟨tree'', h', fun place => ?_⟩
  by_cases hway : ∃ draft ∈ drafts, place ∈ wayTo draft.path
  · obtain ⟨draft, hdraft, hway⟩ := hway
    rw [h.get?_eq_directory hdraft hway, h'.get?_eq_directory (hperm.mem_iff.2 hdraft) hway]
  · by_cases hplace : ∃ draft ∈ drafts, place = placeOf draft.path
    · obtain ⟨draft, hdraft, rfl⟩ := hplace
      rw [h.get?_eq_file hdraft (halone draft hdraft), h'.get?_eq_file (hperm.mem_iff.2 hdraft)
        fun other hother => halone draft hdraft other (hperm.subset hother)]
    · have huntouched : ∀ draft ∈ drafts, place ≠ placeOf draft.path ∧
          place ∉ wayTo draft.path := fun draft hdraft =>
        ⟨fun hsame => hplace ⟨draft, hdraft, hsame⟩, fun hmem => hway ⟨draft, hdraft, hmem⟩⟩
      rw [h.get?_eq_of_untouched huntouched,
        h'.get?_eq_of_untouched fun draft hdraft => huntouched draft (hperm.subset hdraft)]

end FileTree

end AvroBindings
