import AvroBindings.Run.Error
import AvroBindings.Manifest.Reader
import AvroBindings.Schema.Qualify
import AvroBindings.Table.Codec

/-!
# Workspaces

What a run reads from and writes to, and the reading and writing of whole documents.

## Main Definitions

* `Workspace` — the files, and the world outside them.
* `Action` — a computation that changes a state and may be given up; what it changed before
  stays changed.
* `Workspace.readLocation`, `Workspace.loadJson`, `Workspace.loadDocuments` — schema documents
  by location.
* `Workspace.readManifest` — a manifest file.
* `Workspace.readTable`, `Workspace.writeTable` — descriptor tables.

## Design Notes

**Locations.**  The location `-` stands for standard input, which is handed out once; after that
it is empty.  A location that reads as an address of the web is asked of it.  Every other
location is the path of a file, one that reads as an address of another kind included.
-/

namespace AvroBindings

/-- The files, and the world outside them. -/
structure Workspace where
  files : FileTree
  outside : Outside

/-- A computation that changes a state and may be given up; what it changed before stays
changed. -/
abbrev Action (σ : Type) := ExceptT RunError (StateM σ)

/-- The outcome of an action on a state, and the state after it. -/
def Action.perform {σ α : Type} (action : Action σ α) (state : σ) : Except RunError α × σ :=
  action.run.run state

namespace Workspace

/-- Performs one operation on the files; a refusal is reported for the path. -/
def change (path : Path) (operation : FileTree → Except FileError FileTree) :
    Action Workspace Unit := do
  let workspace ← get
  match operation workspace.files with
  | .ok files => set { workspace with files := files }
  | .error cause => throw (.file path cause)

/-- Makes a path a directory, and the directories above it as needed. -/
def makeDirectories (path : Path) : Action Workspace Unit := do
  let workspace ← get
  let (refusal, files) := workspace.files.makeDirectories path
  set { workspace with files := files }
  if let some cause := refusal then throw (.file path cause)

/-- Writes a file. -/
def writeText (path : Path) (text : String) : Action Workspace Unit :=
  change path fun files => files.writeText path text

/-- The text of a file. -/
def readText (path : Path) : Action Workspace String := do
  match (← get).files.readText path with
  | .ok text => return text
  | .error cause => throw (.file path cause)

/-! ### Documents -/

/-- The text on standard input. -/
def readInput : Action Workspace String := do
  let workspace ← get
  let (input, outside) := workspace.outside.takeInput
  set { workspace with outside := outside }
  match input with
  | .text text => return text
  | .bytes _ => throw (.file ⟨"<stdin>"⟩ .notText)

/-- The document at an address. -/
def fetch (location : String) : Action Workspace String := do
  let workspace ← get
  let (answer, outside) := workspace.outside.fetch location
  set { workspace with outside := outside }
  match answer with
  | .ok text => return text
  | .error fault => throw (.fetch location fault)

/-- The text at a location. -/
def readLocation (location : String) : Action Workspace String := do
  if location = "-" then readInput
  else if (← get).outside.isAddress location then fetch location
  else readText ⟨location⟩

/-- The JSON document at a location. -/
def loadJson (location : String) : Action Workspace Json := do
  match Json.parse (← readLocation location) with
  | .ok json => return json
  | .error fault => throw (.json location fault)

/-- Loads more documents after those that have been parsed. -/
def loadAfter (parsed : ParsedSchema) : List String → Action Workspace ParsedSchema
  | [] => return parsed
  | location :: rest => do
    let document ← loadJson location
    match Schema.qualifyIn parsed.named "" document with
    | (.ok schema, named) => loadAfter ⟨schema, named⟩ rest
    | (.error error, _) => throw (.schema error)

/-- Loads the documents at some locations, each qualified in the registry of those before it.
The last one is the root; without any the root is null. -/
def loadDocuments (locations : List String) : Action Workspace ParsedSchema :=
  loadAfter ⟨.null, []⟩ locations

/-- The manifest in a file. -/
def readManifest (path : Path) : Action Workspace Manifest := do
  match Manifest.parse? (← readText path) with
  | some manifest => return manifest
  | none => throw (.manifest path)

/-! ### Descriptor tables -/

/-- Writes a table, the directory above the file made first. -/
def writeTable (table : Table) (path : Path) : Action Workspace Unit := do
  if let some parent := path.parent? then
    if !parent.text.isEmpty then makeDirectories parent
  writeText path table.toJson.pretty

/-- The table in a file. -/
def readTable (path : Path) : Action Workspace Table := do
  match Table.read (← readText path) with
  | .ok table => return table
  | .error fault => throw (.json path.text fault)

end Workspace

end AvroBindings
