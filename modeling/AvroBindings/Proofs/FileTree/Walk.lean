import Mathlib.Data.List.Induction
import AvroBindings.FileTree
import AvroBindings.Proofs.Path
import AvroBindings.Proofs.Results

/-!
# Walking along a path

The places that following a path comes through, told from the names alone.  What stands there
decides whether a path can be followed, not where it leads.

## Main Definitions

* `FileTree.step`, `FileTree.destination` — the place that one piece, or several, lead to.
* `FileTree.walked` — the places that are passed.
* `FileTree.reached` — the places that are passed, and the destination.

## Main Statements

* `FileTree.follow_eq_ok_iff` — a path can be followed exactly if there is a directory at every
  place that is passed.
* `FileTree.follow_error_eq_notFound` — without files on the way only a missing directory keeps
  a path from being followed.
* `FileTree.isPrefix_of_mem_reached` — without `..` a path leads downwards only.
* `FileTree.get?_above` — where directories are passed, there is one above the destination.
-/

namespace AvroBindings

open AvroBindings.Path (IsIdle)

namespace FileTree

variable {tree : FileTree} {start here place : Place} {pieces others : List String}
  {piece : String}

/-! ## Places -/

/-- The place that one piece of a path leads to. -/
def step (here : Place) (piece : String) : Place :=
  if piece.isEmpty || piece == "." then here else if piece == ".." then above here
    else here ++ [piece]

/-- The place that the pieces of a path lead to. -/
def destination (here : Place) (pieces : List String) : Place := pieces.foldl step here

/-- The places that the pieces of a path come through. -/
def walked (here : Place) : List String → List Place
  | [] => []
  | piece :: rest => here :: walked (step here piece) rest

/-- The places that the pieces of a path come through, and the one that they lead to. -/
def reached (here : Place) (pieces : List String) : List Place :=
  walked here pieces ++ [destination here pieces]

theorem step_of_isIdle (h : IsIdle piece) : step here piece = here := by
  rcases h with rfl | rfl <;> rfl

theorem step_of_plain (hidle : ¬IsIdle piece) (hup : piece ≠ "..") :
    step here piece = here ++ [piece] := by
  unfold step
  rw [if_neg (by simpa [IsIdle] using hidle), if_neg (by simpa using hup)]

theorem destination_append :
    destination here (pieces ++ others) = destination (destination here pieces) others :=
  List.foldl_append

theorem destination_concat :
    destination here (pieces ++ [piece]) = step (destination here pieces) piece :=
  destination_append

theorem walked_append :
    walked here (pieces ++ others) = walked here pieces ++
      walked (destination here pieces) others := by
  induction pieces generalizing here with
  | nil => rfl
  | cons piece rest ih => rw [List.cons_append, walked, ih, walked, List.cons_append]; rfl

/-- All places on the way to the last piece are passed. -/
theorem walked_concat : walked here (pieces ++ [piece]) = reached here pieces := walked_append

theorem reached_append :
    reached here (pieces ++ others) = walked here pieces ++
      reached (destination here pieces) others := by
  rw [reached, walked_append, destination_append, reached, List.append_assoc]

/-- Idle pieces lead nowhere else. -/
theorem destination_of_idle (h : ∀ piece ∈ pieces, IsIdle piece) :
    destination here pieces = here := by
  induction pieces with
  | nil => rfl
  | cons piece rest ih =>
      rw [List.forall_mem_cons] at h
      rw [destination, List.foldl_cons, step_of_isIdle h.1]
      exact ih h.2

theorem mem_reached :
    place ∈ reached here pieces ↔ place ∈ walked here pieces ∨
    place = destination here pieces := by
  rw [reached, List.mem_append, List.mem_singleton]

theorem mem_reached_of_idle (h : ∀ piece ∈ pieces, IsIdle piece) :
    place ∈ reached here pieces ↔ place = here := by
  induction pieces with
  | nil => simp [reached, walked, destination]
  | cons piece rest ih =>
      rw [List.forall_mem_cons] at h
      have hrest : reached here (piece :: rest) = here :: reached here rest := by
        rw [reached, walked, destination, List.foldl_cons, step_of_isIdle h.1]
        rfl
      rw [hrest, List.mem_cons, ih h.2, or_self]

/-- Idle pieces at the end reach no other place. -/
theorem mem_reached_append_idle (h : ∀ piece ∈ others, IsIdle piece) :
    place ∈ reached here (pieces ++ others) ↔ place ∈ reached here pieces := by
  rw [reached_append, List.mem_append, mem_reached_of_idle h, mem_reached]

/-! ## Following -/

theorem requireDirectory_eq_ok_iff :
    tree.requireDirectory place = .ok () ↔ tree.get? place = some .directory := by
  unfold requireDirectory
  cases tree.get? place with
  | none => simp
  | some entry => cases entry <;> simp

theorem below_eq_ok_iff {name : String} :
    below here name = .ok place ↔ name.utf8ByteSize ≤ nameLimit ∧ place = here ++ [name] := by
  unfold below
  split
  next h => simp [Nat.not_le.2 h]
  next h => simp [Nat.not_lt.1 h, eq_comm]

/-- One piece of a path is followed from a directory; its name must not be too long. -/
theorem follow_cons : tree.follow here (piece :: pieces) = (do
    tree.requireDirectory here
    if nameLimit < piece.utf8ByteSize then throw .nameTooLong
      else tree.follow (step here piece) pieces) := by
  rw [follow]
  refine congrArg _ (funext fun _ => ?_)
  by_cases hidle : (piece.isEmpty || piece == ".") = true
  · have hshort : ¬nameLimit < piece.utf8ByteSize := by
      rcases (by simpa using hidle : piece = "" ∨ piece = ".") with rfl | rfl <;> decide
    rw [if_pos hidle, if_neg hshort, step, if_pos hidle]
  · rw [if_neg hidle, step, if_neg hidle]
    by_cases hup : (piece == "..") = true
    · have hshort : ¬nameLimit < piece.utf8ByteSize := by
        obtain rfl := beq_iff_eq.1 hup
        decide
      rw [if_pos hup, if_neg hshort, if_pos hup]
    · rw [if_neg hup, if_neg hup, below]
      split
      · rfl
      · rfl

/-- **A path can be followed exactly if there is a directory at every place that is passed** and
no name is too long; it leads to its destination. -/
theorem follow_eq_ok_iff :
    tree.follow here pieces = .ok place ↔
      (∀ passed ∈ walked here pieces, tree.get? passed = some .directory) ∧
        (∀ piece ∈ pieces, piece.utf8ByteSize ≤ nameLimit) ∧
        place = destination here pieces := by
  induction pieces generalizing here with
  | nil => simp [follow, walked, destination, eq_comm]
  | cons piece rest ih =>
      rw [follow_cons, seq_eq_ok_iff]
      simp only [requireDirectory_eq_ok_iff, walked, List.forall_mem_cons, destination,
        List.foldl_cons]
      split
      next hlong => simp [Nat.not_le.2 hlong]
      next hshort => simp [ih, Nat.not_lt.1 hshort, destination, and_assoc]

/-- Without files on the way only a missing directory keeps a path from being followed. -/
theorem follow_error_eq_notFound
    (hfiles : ∀ passed ∈ walked here pieces, ∀ content, tree.get? passed ≠ some (.file content))
    (hfits : ∀ piece ∈ pieces, piece.utf8ByteSize ≤ nameLimit) {cause : FileError}
    (h : tree.follow here pieces = .error cause) : cause = .notFound := by
  induction pieces generalizing here with
  | nil => contradiction
  | cons piece rest ih =>
      rw [walked, List.forall_mem_cons] at hfiles
      rw [List.forall_mem_cons] at hfits
      rw [follow_cons, if_neg (Nat.not_lt.2 hfits.1), requireDirectory] at h
      cases hentry : tree.get? here with
      | none =>
          rw [hentry] at h
          exact (Except.error.inj h).symm
      | some entry =>
          rw [hentry] at h
          cases entry with
          | directory => exact ih hfiles.2 hfits.2 h
          | file content => exact absurd hentry (hfiles.1 content)

theorem requireDirectory_ne_exists : tree.requireDirectory place ≠ .error .exists := by
  unfold requireDirectory
  split <;> simp

/-- No path is refused because of what stands at its end. -/
theorem follow_ne_exists : tree.follow here pieces ≠ .error .exists := by
  induction pieces generalizing here with
  | nil => simp [follow]
  | cons piece rest ih =>
      rw [follow_cons]
      refine bind_ne_error requireDirectory_ne_exists fun _ => ?_
      split
      next => simp [throw, throwThe, MonadExceptOf.throw]
      next => exact ih

/-! ## Above -/

theorem get?_of_isGround (h : isGround place = true) : tree.get? place = some .directory := by
  rw [get?, if_pos h]

theorem lookup_of_get? {entry : FileEntry} (hground : isGround place = false)
    (h : tree.get? place = some entry) :
    tree.entries.lookup place = some entry := by
  rwa [get?, hground, if_neg Bool.false_ne_true] at h

theorem mem_reached_concat :
    place ∈ reached here (pieces ++ [piece]) ↔
      place ∈ reached here pieces ∨ place = step (destination here pieces) piece := by
  rw [mem_reached, walked_concat, destination_concat]

theorem isGround_of_isPrefix {outer : Place} (h : outer <+: place)
    (hplace : isGround place = true) :
    isGround outer = true := by
  simp only [isGround, Bool.or_eq_true, List.all_eq_true, beq_iff_eq] at hplace ⊢
  rcases hplace with hplace | rfl
  · exact .inl fun name hname => hplace name (h.subset hname)
  · rcases List.prefix_cons_iff.1 h with rfl | ⟨rest, rfl, hrest⟩
    · exact .inl (by simp)
    · exact .inr (by rw [List.prefix_nil.1 hrest])

/-- The directory above a place is above every place, or the place is below it. -/
theorem above_isPrefix_or (place : Place) :
    isGround (above place) = true ∨ above place <+: place := by
  unfold above
  split
  next => exact .inr (List.prefix_refl _)
  next =>
    split
    next hup =>
      refine .inl ?_
      rw [isGround, List.all_append, hup]
      rfl
    next => exact .inr (List.dropLast_prefix _)

/-- What a place is below was passed on the way to it, or needs no entry. -/
theorem isGround_or_mem_reached (hstart : isGround start = true) {outer : Place}
    (h : outer <+: destination start pieces) :
    isGround outer = true ∨ outer ∈ reached start pieces := by
  induction pieces using List.reverseRecOn generalizing outer with
  | nil => exact .inl (isGround_of_isPrefix h hstart)
  | append_singleton pieces piece ih =>
      rw [destination_concat] at h
      rw [mem_reached_concat, ← or_assoc]
      unfold step at h ⊢
      split at h
      next hidle => exact .inl (ih h)
      next hidle =>
        split at h
        next hup =>
          rcases above_isPrefix_or (destination start pieces) with hground | habove
          · exact .inl (.inl (isGround_of_isPrefix h hground))
          · exact .inl (ih (h.trans habove))
        next hup =>
          rw [if_neg hidle, if_neg hup]
          rcases List.prefix_concat_iff.1 h with rfl | h
          · exact .inr rfl
          · exact .inl (ih h)

/-- **Where directories are passed, there is one above the destination.** -/
theorem get?_above (hstart : isGround start = true)
    (h : ∀ passed ∈ reached start pieces, tree.get? passed = some .directory) :
    tree.get? (above (destination start pieces)) = some .directory := by
  rcases above_isPrefix_or (destination start pieces) with hground | habove
  · exact get?_of_isGround hground
  · rcases isGround_or_mem_reached hstart habove with hground | hmem
    · exact get?_of_isGround hground
    · exact h _ hmem

end FileTree

end AvroBindings
