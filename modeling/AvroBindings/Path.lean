/-!
# Paths

The text of a path with `/` between its pieces, and the two operations on texts that the library
builds its paths with.

## Main Definitions

* `Path` — a path by its text, which is kept as it was given.
* `Path.join` — a path with one more segment; an absolute segment replaces the path.
* `Path.parent?` — the path without its last component.
* `Path.ancestors` — a path, its parent, and so on.

## Design Notes

The pieces of a text are what lies between its slashes.  A piece counts as a component unless it
is empty or a `.`; the one exception is a `.` at the very start.  So `a//./b` has the components
`a` and `b`, and its parent is `a`.  Nothing is looked up and `..` is a component like any
other.
-/

namespace AvroBindings

/-- A path by its text. -/
structure Path where
  text : String
deriving DecidableEq, Inhabited

namespace Path

/-- Whether the path starts at the root. -/
def isAbsolute (path : Path) : Bool := path.text.toList.head? == some '/'

/-- What lies between the slashes. -/
def pieces (path : Path) : List String :=
  (path.text.toList.splitOnP (· == '/')).map String.ofList

/-- The path with one more segment.  A slash is put between unless the path is empty or ends in
one; a segment that starts with a slash takes the path's place. -/
def join (path : Path) (segment : String) : Path :=
  if segment.toList.head? == some '/' then ⟨segment⟩
  else if path.text.isEmpty || path.text.toList.getLast? == some '/' then ⟨path.text ++ segment⟩
  else ⟨path.text ++ "/" ++ segment⟩

/-- Drops the pieces at the end that are no components; the pieces stand last first. -/
def dropIdle : List String → List String
  | [] => []
  | [first] => if first.isEmpty then [] else [first]
  | piece :: rest => if piece.isEmpty || piece == "." then dropIdle rest else piece :: rest

/-- The path without its last component, or nothing if it has none. -/
def parent? (path : Path) : Option Path :=
  match dropIdle path.pieces.reverse with
  | [] => none
  | _ :: rest =>
    match (dropIdle rest).reverse with
    | [] => some ⟨if path.isAbsolute then "/" else ""⟩
    | kept => some ⟨"/".intercalate kept⟩

/-- The first `limit` of a path, its parent, and so on. -/
def ancestorsWithin : Nat → Path → List Path
  | 0, _ => []
  | limit + 1, path =>
    path :: (match path.parent? with
      | none => []
      | some parent => ancestorsWithin limit parent)

/-- A path, its parent, and so on; each has fewer pieces than the one before. -/
def ancestors (path : Path) : List Path := ancestorsWithin (path.pieces.length + 1) path

example : (join ⟨"out"⟩ "a").text = "out/a" ∧ (join ⟨"out/"⟩ "a").text = "out/a" := by decide
example : (join ⟨""⟩ "a").text = "a" ∧ (join ⟨"out"⟩ "/a").text = "/a" := by decide
example : parent? ⟨"a//./b/"⟩ = some ⟨"a"⟩ ∧ parent? ⟨"./b"⟩ = some ⟨"."⟩ := by decide
example : parent? ⟨"/b"⟩ = some ⟨"/"⟩ ∧ parent? ⟨"b"⟩ = some ⟨""⟩ ∧ parent? ⟨"/"⟩ = none :=
  by decide

end Path

end AvroBindings
