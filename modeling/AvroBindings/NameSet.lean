/-!
# Sets of names

A finite set of strings, listed in increasing order.

## Main Definitions

* `NameSet` — the names, with the proof that they increase.
* `NameSet.insert` — the set with one more name.
* `NameSet.ofList` — the set of the names of a list.

## Main Statements

* `NameSet.mem_insert` — inserting adds the name and nothing else.
* `NameSet.ext_mem` — two sets with the same members are equal, so the order of insertion leaves
  no trace.

## Design Notes

Strings are compared character by character by code point.  For texts in UTF-8 that is the order
of their bytes.
-/

namespace AvroBindings

/-- Inserts into an increasing list. -/
def insertIncreasing (name : String) : List String → List String
  | [] => [name]
  | first :: rest =>
    if name < first then name :: first :: rest
    else if name = first then first :: rest
    else first :: insertIncreasing name rest

theorem mem_insertIncreasing {name other : String} {names : List String} :
    other ∈ insertIncreasing name names ↔ other = name ∨ other ∈ names := by
  induction names with
  | nil => simp [insertIncreasing]
  | cons first rest ih =>
    unfold insertIncreasing
    split
    · simp
    · split
      · next h => subst h; simp
      · simp [ih, or_left_comm]

theorem increasing_insertIncreasing {name : String} {names : List String}
    (h : names.Pairwise (· < ·)) :
    (insertIncreasing name names).Pairwise (· < ·) := by
  induction names with
  | nil => simp [insertIncreasing]
  | cons first rest ih =>
    obtain ⟨above, increasing⟩ := List.pairwise_cons.1 h
    unfold insertIncreasing
    split
    · next less =>
      refine List.pairwise_cons.2 ⟨fun other mem => ?_, h⟩
      rcases List.mem_cons.1 mem with rfl | mem
      · exact less
      · exact String.lt_trans less (above other mem)
    · split
      · exact h
      · next notLess differ =>
        refine List.pairwise_cons.2 ⟨fun other mem => ?_, ih increasing⟩
        rcases mem_insertIncreasing.1 mem with rfl | mem
        · exact Decidable.byContradiction fun notGreater =>
            differ (String.le_antisymm (String.not_lt.1 notGreater) (String.not_lt.1 notLess))
        · exact above other mem

/-- A finite set of names, listed in increasing order. -/
structure NameSet where
  names : List String
  increasing : names.Pairwise (· < ·)
deriving DecidableEq

namespace NameSet

/-- The empty set. -/
def empty : NameSet := ⟨[], List.Pairwise.nil⟩

instance : Inhabited NameSet := ⟨empty⟩

instance : Membership String NameSet := ⟨fun set name => name ∈ set.names⟩

instance (name : String) (set : NameSet) : Decidable (name ∈ set) :=
  inferInstanceAs (Decidable (name ∈ set.names))

/-- The set with one more name. -/
def insert (set : NameSet) (name : String) : NameSet :=
  ⟨insertIncreasing name set.names, increasing_insertIncreasing set.increasing⟩

/-- The set of the names of a list. -/
def ofList (names : List String) : NameSet := names.foldl insert empty

/-- Whether the set has no member. -/
def isEmpty (set : NameSet) : Bool := set.names.isEmpty

theorem mem_def {name : String} {set : NameSet} : name ∈ set ↔ name ∈ set.names := Iff.rfl

/-- Nothing is in the empty set. -/
@[simp] theorem notMem_empty (name : String) : name ∉ empty := by simp [mem_def, empty]

/-- Inserting adds the name and nothing else. -/
@[simp] theorem mem_insert {name other : String} {set : NameSet} :
    other ∈ set.insert name ↔ other = name ∨ other ∈ set :=
  mem_insertIncreasing

/-- Two increasing lists with the same members are equal. -/
theorem eq_of_increasing {xs ys : List String} (hx : xs.Pairwise (· < ·))
    (hy : ys.Pairwise (· < ·)) (same : ∀ name, name ∈ xs ↔ name ∈ ys) : xs = ys := by
  induction xs generalizing ys with
  | nil =>
    cases ys with
    | nil => rfl
    | cons y ys => exact absurd ((same y).2 (by simp)) (by simp)
  | cons x xs ih =>
    cases ys with
    | nil => exact absurd ((same x).1 (by simp)) (by simp)
    | cons y ys =>
      obtain ⟨hx, hxs⟩ := List.pairwise_cons.1 hx
      obtain ⟨hy, hys⟩ := List.pairwise_cons.1 hy
      have heads : x = y := by
        rcases List.mem_cons.1 ((same x).1 (by simp)) with h | h
        · exact h
        · rcases List.mem_cons.1 ((same y).2 (by simp)) with h' | h'
          · exact h'.symm
          · exact absurd (hx y h') (String.lt_asymm (hy x h))
      subst heads
      refine congrArg (x :: ·) (ih hxs hys fun name => ⟨fun mem => ?_, fun mem => ?_⟩)
      · rcases List.mem_cons.1 ((same name).1 (List.mem_cons_of_mem x mem)) with rfl | h
        · exact absurd (hx name mem) (String.lt_irrefl name)
        · exact h
      · rcases List.mem_cons.1 ((same name).2 (List.mem_cons_of_mem x mem)) with rfl | h
        · exact absurd (hy name mem) (String.lt_irrefl name)
        · exact h

/-- Sets with the same members are equal. -/
theorem ext_mem {s t : NameSet} (same : ∀ name, name ∈ s ↔ name ∈ t) : s = t := by
  obtain ⟨xs, hx⟩ := s
  obtain ⟨ys, hy⟩ := t
  obtain rfl : xs = ys := eq_of_increasing hx hy same
  rfl

end NameSet

end AvroBindings
