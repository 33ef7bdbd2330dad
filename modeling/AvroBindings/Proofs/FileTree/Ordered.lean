import AvroBindings.Proofs.FileTree.Proper
import AvroBindings.Proofs.Text.Bytes

/-!
# The order of a walk

The directories under a place, in the order in which a walk comes to them: each before what is
in it, and those in one directory in the order of the bytes of their names.

## Main Definitions

* `FileTree.Precedes` — one directory comes before another in a walk.

## Main Statements

* `FileTree.precedes_iff` — the order of a walk is that of the names on the way.
* `FileTree.pairwise_directoriesUnder` — the directories under a place are listed in the order
  of a walk.

## Design Notes

A walk goes depth first.  What is in a directory comes right after it and before its next
sibling, so two directories of which none is in the other are in the order of the first names in
which the ways to them differ.
-/

namespace AvroBindings

namespace FileTree

variable {tree : FileTree} {place names others : Place}

/-! ## Before and after -/

/-- **One directory comes before another in a walk**: the other is in it, or the ways to them
part at two names of which its own has the smaller bytes. -/
inductive Precedes : Place → Place → Prop
  | above (names : Place) (name : String) (rest : Place) :
      Precedes names (names ++ name :: rest)
  | beside (names : Place) {name other : String} (h : Text.bytes name < Text.bytes other)
      (rest rest' : Place) : Precedes (names ++ name :: rest) (names ++ other :: rest')

theorem Precedes.cons (name : String) (h : Precedes names others) :
    Precedes (name :: names) (name :: others) := by
  cases h with
  | above names other rest => exact .above (name :: names) other rest
  | beside names h rest rest' => exact .beside (name :: names) h rest rest'

/-- The order of a walk is that of the names on the way. -/
theorem precedes_iff : Precedes names others ↔ names < others := by
  constructor
  · rintro (⟨names, name, rest⟩ | ⟨names, h, rest, rest'⟩)
    · have hless : names ++ [] < names ++ name :: rest :=
        List.append_left_lt (List.nil_lt_cons _ _)
      rwa [List.append_nil] at hless
    · exact List.append_left_lt (List.cons_lt_cons_iff.2 (.inl (Text.bytes_lt_iff.1 h)))
  · intro h
    induction names generalizing others with
    | nil =>
        cases others with
        | nil => exact absurd h (List.lt_irrefl _)
        | cons other rest => exact .above [] other rest
    | cons name rest ih =>
        cases others with
        | nil => exact absurd h (List.not_lt_nil _)
        | cons other rest' =>
            rcases List.cons_lt_cons_iff.1 h with hless | ⟨rfl, hrest⟩
            · exact .beside [] (Text.bytes_lt_iff.2 hless) rest rest'
            · exact (ih hrest).cons name

/-! ## Listed directories -/

/-- **The directories under a place are listed in the order of a walk.** -/
theorem pairwise_directoriesUnder (tree : FileTree) (place : Place) :
    (tree.directoriesUnder place).Pairwise fun names others => ¬Precedes others names := by
  have htrans : ∀ a b c : Place, !decide (b < a) → !decide (c < b) → !decide (c < a) := by
    intro a b c hab hbc
    simp only [Bool.not_eq_true', decide_eq_false_iff_not, not_lt] at hab hbc ⊢
    exact le_trans hab hbc
  have htotal : ∀ a b : Place, (!decide (b < a) || !decide (a < b)) = true := by
    intro a b
    simp only [Bool.or_eq_true, Bool.not_eq_true', decide_eq_false_iff_not, not_lt]
    exact le_total a b
  refine (List.pairwise_mergeSort htrans htotal _).imp fun {a b} hle => ?_
  rwa [precedes_iff, ← decide_eq_false_iff_not, ← Bool.not_eq_true']

end FileTree

end AvroBindings
