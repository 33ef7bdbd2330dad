import AvroBindings.CommandLine
import AvroBindings.Run.Program

/-!
# The program

Carries out `CommandLine.run` on the real file system: what the arguments mention is read into a
workspace, the run is computed, and the entries it created or altered are written back.

## Main Definitions

* `Program.load` — reads what stands at a place, and everything below it.
* `Program.store` — writes an entry back.
* `Program.outside` — the world outside the files, as far as the program reaches it.
* `main` — the program.

## Design Notes

**Files.**  A run reads nothing but the files that are named to it and the directory it writes
into, so those are loaded.  Standard input is read only if it is named.

**The rest.**  No address is answered, and the programs are those of `Program.launch`.
-/

open AvroBindings

namespace AvroBindings.Program

/-- The path text of a place. -/
def pathText : Place → String
  | [] => "."
  | "/" :: names => "/" ++ "/".intercalate names
  | names => "/".intercalate names

/-- The place that a path leads to, whatever stands on the way. -/
def placeOf (path : Path) : Place :=
  path.pieces.foldl (fun here piece =>
    if piece.isEmpty || piece == "." then here
    else if piece == ".." then FileTree.above here
    else here ++ [piece]) (FileTree.startOf path)

/-- What a file holds, from its bytes. -/
def contentOf (bytes : ByteArray) : Content :=
  match String.fromUTF8? bytes with
  | some text => .text text
  | none => .bytes bytes.toList

/-- Sets an entry that may stand at a place without one. -/
def enter (tree : FileTree) (place : Place) (entry : FileEntry) : FileTree :=
  if FileTree.isGround place then tree else tree.set place entry

/-- Reads what stands at a place, and everything below it. -/
partial def load (tree : FileTree) (place : Place) : IO FileTree := do
  let path := ((← IO.currentDir) / pathText place)
  if ← path.isDir then
    (← path.readDir).foldlM (fun tree entry => load tree (place ++ [entry.fileName]))
      (enter tree place .directory)
  else if ← path.pathExists then
    return enter tree place (.file (contentOf (← IO.FS.readBinFile path)))
  else return tree

/-- Reads what stands at a place, and the directories above it. -/
def loadWithParents (tree : FileTree) (place : Place) : IO FileTree := do
  let mut tree := tree
  for length in List.range place.length do
    let above := place.take length
    if ← ((← IO.currentDir) / pathText above).isDir then tree := enter tree above .directory
  load tree place

/-- Reads what some locations lead to. -/
def loadAll (tree : FileTree) (locations : List String) : IO FileTree :=
  locations.foldlM (fun tree location => loadWithParents tree (placeOf ⟨location⟩)) tree

/-- Writes an entry back. -/
def store (place : Place) (entry : FileEntry) : IO Unit := do
  let path := ((← IO.currentDir) / pathText place)
  match entry with
  | .directory => IO.FS.createDirAll path
  | .file (.text text) => IO.FS.writeFile path text
  | .file (.bytes bytes) => IO.FS.writeBinFile path ⟨bytes.toArray⟩

/-- The scheme of an address of the web. -/
def schemeOf (location : String) : Option String :=
  ["http", "https"].find? fun scheme => location.startsWith (scheme ++ "://")

/-- The world outside the files, as far as the program reaches it. -/
def outside (input : Content) : Outside :=
  { Outside.alone launch with
    input := input
    scheme? := schemeOf
    web := fun _ _ => .error "the network cannot be reached" }

/-- The locations that a run with some settings reads: those of the manifest file, if one is
named. -/
def locationsOf (settings : CommandLine) (files : FileTree) : List String :=
  match settings.ordered with
  | none => settings.files
  | some path =>
    match (Workspace.readManifest path).perform ⟨files, outside (.text "")⟩ with
    | (.ok manifest, _) => manifest.flatMap Prod.snd
    | (.error _, _) => []

/-- What is on standard input. -/
def readInput : IO Content := do
  return contentOf (← (← IO.getStdin).readBinToEnd)

/-- The workspace for a run with some settings. -/
def workspaceFor (settings : CommandLine) : IO Workspace := do
  let outputs := settings.outputRoot :: settings.tablePath.toList
  let files ← loadAll .empty ((outputs ++ settings.ordered.toList).map Path.text)
  let locations := locationsOf settings files
  let files ← loadAll files (locations.filter (· ≠ "-"))
  let input ← if locations.contains "-" then readInput else pure (.text "")
  return ⟨files, outside input⟩

end AvroBindings.Program

/-- The program: the exit code for a list of arguments. -/
def main (arguments : List String) : IO UInt32 := do
  let workspace ← match CommandLine.parse arguments with
    | .ok settings => Program.workspaceFor settings
    | .error _ => pure ⟨.empty, Program.outside (.text "")⟩
  let (outcome, after) := CommandLine.run arguments workspace
  for (place, entry) in after.files.entries do
    if workspace.files.get? place ≠ some entry then Program.store place entry
  match outcome with
  | .success => pure ()
  | .help => CommandLine.helpLines.forM IO.println
  | .misuse reason => IO.eprintln s!"error: {reason}"
  | .failure error => IO.eprintln s!"Error: {error.message}"
  return UInt32.ofNat outcome.code
