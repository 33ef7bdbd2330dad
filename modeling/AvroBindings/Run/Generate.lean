import AvroBindings.Run.Emit
import AvroBindings.Run.Formatter
import AvroBindings.Run.Marker

/-!
# Generation runs

From a manifest to a directory of declarations.

## Main Definitions

* `Options` — the settings of a run.
* `Report` — what a run has produced so far.
* `Generation` — a workspace with a report.
* `Generation.emitParsed` — writes the named types of one parsed document.
* `Generation.finish` — package markers, formatter, descriptor table.
* `Generation.generate` — a whole run.

## Design Notes

**Order.**  The types of a document are written in the order of its registry, its root last.  A
root that is a union has nothing of its own, since its members are in the registry.

**Faults.**  The first fault ends a run.  Files that were written before it stay, and so does
the report of them; markers, formatter and table come after all sets have been written.
-/

namespace AvroBindings

/-- The settings of a run. -/
structure Options where
  style : Style
  /-- Taken off every full name that starts with it. -/
  lead : String
  outputRoot : Path
  /-- The command run over every top package, if any. -/
  formatter : Option String
  /-- Where the descriptor table is written, if anywhere. -/
  tablePath : Option Path

/-- The settings of a run that asks for nothing. -/
def Options.standard : Options :=
  { style := .dataclass, lead := "", outputRoot := ⟨"."⟩,
    formatter := some Formatter.defaultCommand, tablePath := none }

/-- What a run has produced. -/
structure Report where
  /-- The files written, in order. -/
  written : List Path
  /-- The first namespace segments of the types written. -/
  packages : NameSet
  /-- The types written. -/
  table : Table

namespace Report

/-- Nothing. -/
def empty : Report := ⟨[], .empty, .empty⟩

/-- One more type written. -/
def add (report : Report) (emitted : Emitted) : Report where
  written := report.written ++ [emitted.path]
  packages :=
    match Name.packageRoot? emitted.type.name with
    | some package => report.packages.insert package
    | none => report.packages
  table := report.table.insert emitted.type

end Report

/-- A workspace, and the report of the run in it. -/
structure Generation where
  workspace : Workspace
  report : Report

namespace Generation

/-- A run that has not begun. -/
def start (workspace : Workspace) : Generation := ⟨workspace, .empty⟩

/-- Performs an action in the workspace of a run. -/
def inWorkspace {α : Type} (action : Action Workspace α) : Action Generation α := do
  let generation ← get
  let (outcome, workspace) := action.perform generation.workspace
  set { generation with workspace := workspace }
  match outcome with
  | .ok result => return result
  | .error error => throw error

/-- Describes a qualified schema, writes it, and adds it to the report. -/
def emit (options : Options) (schema : Json) : Action Generation Unit := do
  let emitted ←
      inWorkspace (Emitted.ofSchema schema options.style options.lead options.outputRoot)
  modify fun generation => { generation with report := generation.report.add emitted }

/-- Writes the entries of a registry, but for the one under the name of the root. -/
def emitEntries (options : Options) (rootName : Option String) :
    Registry → Action Generation Unit
  | [] => return ()
  | (name, schema) :: rest => do
    if rootName ≠ some name then emit options schema
    emitEntries options rootName rest

/-- The kind of a root that cannot be declared: a string stands for itself, all else for its
text. -/
def rootKind : Json → String
  | .string name => name
  | json => json.compact

/-- Writes the named types of a parsed document. -/
def emitParsed (options : Options) (parsed : ParsedSchema) : Action Generation Unit := do
  emitEntries options parsed.rootName? parsed.named
  match parsed.schema with
  | .array _ => return ()
  | .object members => emit options (.object members)
  | other => throw (.schema (.unsupportedKind "<root>" (rootKind other)))

/-- Runs the formatter over the packages of a list. -/
def format (command : String) (root : Path) : List String → Action Workspace Unit
  | [] => return ()
  | package :: rest => do
    Formatter.run command (root.join package)
    format command root rest

/-- Marks the packages of a report, runs the formatter over them, and writes the table. -/
def finishReport (options : Options) (report : Report) : Action Workspace Unit := do
  let _ ← Marker.ensure options.outputRoot report.packages
  if let some command := options.formatter then
    format command options.outputRoot report.packages.names
  if let some path := options.tablePath then
    Workspace.writeTable report.table path

/-- What remains to be done once all types are written. -/
def finish (options : Options) : Action Generation Unit := do
  inWorkspace (finishReport options (← get).report)

/-- Loads and writes the sets of a manifest. -/
def emitSets (options : Options) : Manifest → Action Generation Unit
  | [] => return ()
  | (_, locations) :: rest => do
    emitParsed options (← inWorkspace (Workspace.loadDocuments locations))
    emitSets options rest

/-- A whole run, from a manifest. -/
def generate (options : Options) (manifest : Manifest) : Action Generation Unit := do
  emitSets options manifest
  finish options

end Generation

end AvroBindings
