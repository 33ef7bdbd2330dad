import AvroBindings.Run.Workspace
import AvroBindings.NameSet

/-!
# Package markers

A directory of generated files can be imported as a package once it holds a file of a certain
name.

## Main Definitions

* `Marker.fileName` — the name.
* `Marker.ensureUnder` — marks the directories at and below one directory.
* `Marker.ensure` — marks the directories of some packages.

## Design Notes

Markers are created empty and only where nothing of that name stands, so a second pass changes
nothing.  Marking creates no directory, so the directories to mark can be listed before the
first of them is marked.
-/

namespace AvroBindings.Marker

/-- The name of the file that makes a directory a package. -/
def fileName : String := "__init__.py"

/-- Marks some directories, given by the names that lead to them from `root`; the markers
created, in order. -/
def ensureEach (root : Path) : List Place → Action Workspace (List Path)
  | [] => return []
  | names :: rest => do
    let marker := (names.foldl Path.join root).join fileName
    let workspace ← get
    match workspace.files.createEmpty marker with
    | .ok files =>
      set { workspace with files := files }
      return marker :: (← ensureEach root rest)
    | .error .exists => ensureEach root rest
    | .error cause => throw (.file marker cause)

/-- Marks the directories at and below a path.  A path that leads to a file has none; one that
leads nowhere is a fault. -/
def ensureUnder (root : Path) : Action Workspace (List Path) := do
  let files := (← get).files
  match files.find root with
  | .ok (place, .directory) => ensureEach root (files.directoriesUnder place)
  | .ok (_, .file _) => return []
  | .error cause => throw (.walk root cause)

/-- Marks the directories of the packages in a list. -/
def ensureAll (root : Path) : List String → Action Workspace (List Path)
  | [] => return []
  | package :: rest => do
    let created ← ensureUnder (root.join package)
    return created ++ (← ensureAll root rest)

/-- Marks the directories of some packages below a directory, in the order of their names; the
markers created. -/
def ensure (root : Path) (packages : NameSet) : Action Workspace (List Path) :=
  ensureAll root packages.names

end AvroBindings.Marker
