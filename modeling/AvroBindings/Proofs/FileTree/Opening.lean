import AvroBindings.Proofs.FileTree.Listing

/-!
# Directories made in part

Making the directories of a path can be refused half way up.  Some of them stand then, and
nothing else is changed.

## Main Definitions

* `FileTree.OpensAmong` — directories are made at some of several places, where nothing stood.

## Main Statements

* `FileTree.opensAmong_makeDirectories` — directories are made only where a path passes or
  leads, whether all are made or that is refused.

## Design Notes

`FileTree.Makes` says when all directories of a path are made, and what stands where then.
Nothing is said there of the tree that a refusal leaves; it is told here for both outcomes at
once.
-/

namespace AvroBindings

open AvroBindings.Path (IsIdle)

namespace FileTree

variable {places others : List Place} {tree next tree' : FileTree} {path : Path}
  {init : List String} {name : String}

/-- **Directories are made at some of several places**, where nothing stood; elsewhere all is as
it was. -/
def OpensAmong (places : List Place) (tree tree' : FileTree) : Prop :=
  ∀ place, tree'.get? place = tree.get? place ∨
    place ∈ places ∧ tree.get? place = none ∧ tree'.get? place = some .directory

namespace OpensAmong

theorem refl (places : List Place) (tree : FileTree) : OpensAmong places tree tree :=
  fun _ => .inl rfl

theorem trans (h : OpensAmong places tree next) (h' : OpensAmong places next tree') :
    OpensAmong places tree tree' := by
  intro place
  rcases h' place with hsame | ⟨hmem, hnone, hdirectory⟩
  · rw [hsame]
    exact h place
  · rcases h place with hsame | ⟨-, -, hdirectory'⟩
    · exact .inr ⟨hmem, hsame ▸ hnone, hdirectory⟩
    · rw [hnone] at hdirectory'
      contradiction

theorem mono (h : OpensAmong places tree tree') (hsubset : ∀ place ∈ places, place ∈ others) :
    OpensAmong others tree tree' :=
  fun place => (h place).imp_right fun ⟨hmem, hmade⟩ => ⟨hsubset place hmem, hmade⟩

end OpensAmong

/-- A directory that is made stands where its path leads. -/
theorem opensAmong_makeDirectory (h : path.pieces = init ++ [name]) (hname : ¬IsIdle name)
    (hmake : tree.makeDirectory path = .ok tree') :
    OpensAmong (reached (startOf path) path.pieces) tree tree' := by
  obtain ⟨-, hup, hnone, rfl⟩ := (makeDirectory_eq_ok_iff h hname).1 hmake
  intro place
  rw [get?_set (isGround_placeOf h hname hup)]
  by_cases hplace : place = placeOf path
  · exact .inr ⟨mem_reached.2 (.inr hplace), hplace ▸ hnone, if_pos hplace⟩
  · exact .inl (if_neg hplace)

/-- The paths above a path are tried one after another, and each makes directories only where
the path passes. -/
theorem opensAmong_ancestorsWithin {limit : Nat} (h : Settles path limit) :
    OpensAmong (reached (startOf path) path.pieces) tree
      (makeFirst (path.ancestorsWithin limit) tree).2 := by
  induction limit generalizing path with
  | zero => rcases h with ⟨-, h⟩ | ⟨-, h⟩ <;> exact absurd h (Nat.not_lt_zero _)
  | succ limit ih =>
      rw [Path.ancestorsWithin]
      rcases h with ⟨htext, -⟩ | ⟨hdot | ⟨init, name, hpieces, hname⟩, hlimit⟩
      · obtain ⟨text⟩ := path
        rcases htext with rfl | rfl <;> exact .refl _ _
      · obtain ⟨text⟩ := path
        obtain rfl : text = "." := hdot
        exact .refl _ _
      · obtain ⟨parent, hparent, hsettles, hreached, -, -⟩ := exists_above hpieces hname
        rw [hparent]
        dsimp only
        have hparents : OpensAmong (reached (startOf path) path.pieces) tree
            (makeFirst (parent.ancestorsWithin limit) tree).2 :=
          (ih (hsettles limit (Nat.le_of_lt_succ hlimit))).mono fun place hplace =>
            mem_reached.2 (.inl ((hreached place).1 hplace))
        rw [makeFirst]
        split
        next => exact .refl _ _
        next =>
          split
          next tree' hmake => exact opensAmong_makeDirectory hpieces hname hmake
          next =>
            split
            next between hbetween => rwa [hbetween] at hparents
            next between hbetween =>
              rw [hbetween] at hparents
              split
              next tree' hmake =>
                exact hparents.trans (opensAmong_makeDirectory hpieces hname hmake)
              next => exact hparents
          next => exact .refl _ _

/-- **Making directories makes them only where a path passes or leads**, also if that is
refused. -/
theorem opensAmong_makeDirectories (h : (path.text = "" ∨ path.text = "/") ∨ path.IsTrimmed)
    (tree : FileTree) :
    OpensAmong (reached (startOf path) path.pieces) tree (tree.makeDirectories path).2 := by
  refine opensAmong_ancestorsWithin ?_
  rcases h with h | h
  · exact .inl ⟨h, Nat.succ_pos _⟩
  · exact .inr ⟨h, Nat.lt_succ_self _⟩

/-- **Making the directories above a file makes them only where its path passes**, also if that
is refused. -/
theorem exists_opensAmong_parent (tree : FileTree) (h : EndsInName path) :
    ∃ parent, path.parent? = some parent ∧
    OpensAmong (wayTo path) tree (tree.makeDirectories parent).2 := by
  obtain ⟨init, name, hpieces, hname, -⟩ := h
  obtain ⟨parent, hparent, hsettles, hreached, -, -⟩ := exists_above hpieces hname
  refine ⟨parent, hparent, ?_⟩
  have hkind := (hsettles _ (Nat.le_refl _)).imp And.left And.left
  exact (opensAmong_makeDirectories hkind tree).mono fun place hplace =>
    (hreached place).1 hplace

end FileTree

end AvroBindings
