import AvroBindings.Run.Generate

/-!
# The command line

The arguments of the program and what it does with them.

## Main Definitions

* `CommandLine` — the settings that arguments stand for.
* `CommandLine.parse` — the settings of a list of arguments, or a request for help, or a fault.
* `CommandLine.execute` — a run with settings.
* `CommandLine.run` — the exit code and the error output for a list of arguments.

## Design Notes

Options may stand before and after files, and `--` ends them.  A value stands in the next
argument or after an equals sign, for the one short option also directly after its letter; in
the next argument it must not start with a dash unless it is a dash alone.  No option may be
given twice.  The arguments are taken from left to right, so a request for help counts only if
nothing before it is at fault.
-/

namespace AvroBindings

/-- The settings that arguments stand for. -/
structure CommandLine where
  files : List String
  ordered : Option Path
  style : Style
  formatted : Bool
  formatter : String
  lead : String
  outputRoot : Path
  tablePath : Option Path

namespace CommandLine

/-- The options that take a value. -/
inductive ValueOption where
  | ordered
  | classType
  | formatter
  | lead
  | outputRoot
  | tablePath
deriving DecidableEq

/-- The option of a long name. -/
def ValueOption.ofName? : String → Option ValueOption
  | "ordered" => some .ordered
  | "class-type" => some .classType
  | "formatter" => some .formatter
  | "prefix" => some .lead
  | "output-dir" => some .outputRoot
  | "descriptors" => some .tablePath
  | _ => none

/-- Why arguments do not stand for a run. -/
inductive Stop where
  /-- Help is asked for. -/
  | help
  /-- The arguments are at fault. -/
  | usage (reason : String)

/-- The arguments taken so far: files, last first, options with their values, and whether
formatting is off. -/
structure Draft where
  files : List String
  values : List (ValueOption × String)
  unformatted : Bool

/-- Whether a text can be the value of an option. -/
def ValueOption.admits (option : ValueOption) (value : String) : Bool :=
  match option with
  | .classType => (Style.ofName? value).isSome
  | .ordered | .outputRoot | .tablePath => !value.isEmpty
  | .formatter | .lead => true

/-- Takes the value of an option. -/
def Draft.takeValue (draft : Draft) (option : ValueOption) (value : String) :
    Except Stop Draft :=
  if draft.values.any (·.1 = option) then .error (.usage "an option is given twice")
  else if !option.admits value then .error (.usage s!"invalid value '{value}'")
  else .ok { draft with values := (option, value) :: draft.values }

/-- Takes a flag without a value. -/
def Draft.takeUnformatted (draft : Draft) : Except Stop Draft :=
  if draft.unformatted then .error (.usage "an option is given twice")
  else .ok { draft with unformatted := true }

/-- What an argument is by its looks. -/
inductive Shape where
  /-- Two dashes: no options follow. -/
  | terminator
  /-- A long option, and what stands after its equals sign. -/
  | long (name : String) (value : Option String)
  /-- Short options, as the characters after the dash. -/
  | short (letters : List Char)
  /-- A file, or the value of an option. -/
  | plain

/-- The looks of an argument. -/
def Shape.of (argument : String) : Shape :=
  match argument.toList with
  | ['-', '-'] => .terminator
  | '-' :: '-' :: rest =>
    match rest.dropWhile (· ≠ '=') with
    | '=' :: value =>
        .long (String.ofList (rest.takeWhile (· ≠ '='))) (some (String.ofList value))
    | _ => .long (String.ofList rest) none
  | '-' :: c :: rest => .short (c :: rest)
  | _ => .plain

/-- What is asked of the argument after one that has been taken. -/
inductive Pending where
  | nothing
  | value (option : ValueOption)

/-- Takes a long option. -/
def Draft.takeLong (draft : Draft) (name : String) (value : Option String) :
    Except Stop (Draft × Pending) := do
  match ValueOption.ofName? name, value with
  | some option, some value => return (← draft.takeValue option value, .nothing)
  | some option, none => return (draft, .value option)
  | none, some _ => throw (.usage s!"unexpected argument '--{name}'")
  | none, none =>
    if name = "no-black" then return (← draft.takeUnformatted, .nothing)
    else if name = "help" then throw .help
    else throw (.usage s!"unexpected argument '--{name}'")

/-- Takes short options: only help and the one that takes a value exist. -/
def Draft.takeShort (draft : Draft) : List Char → Except Stop (Draft × Pending)
  | 'h' :: _ => .error .help
  | ['o'] => .ok (draft, .value .ordered)
  | 'o' :: '=' :: value =>
      do return (← draft.takeValue .ordered (String.ofList value), .nothing)
  | 'o' :: value => do return (← draft.takeValue .ordered (String.ofList value), .nothing)
  | _ => .error (.usage "unexpected argument")

/-- Takes arguments from left to right. -/
def Draft.takeAll (draft : Draft) : Pending → List String → Except Stop Draft
  | .nothing, [] => .ok draft
  | .value _, [] => .error (.usage "a value is required")
  | .value option, argument :: rest =>
    match Shape.of argument with
    | .plain => do (← draft.takeValue option argument).takeAll .nothing rest
    | _ => .error (.usage "a value is required")
  | .nothing, argument :: rest =>
    match Shape.of argument with
    | .terminator => .ok { draft with files := rest.reverse ++ draft.files }
    | .long name value => do
      let (draft, pending) ← draft.takeLong name value
      draft.takeAll pending rest
    | .short letters => do
      let (draft, pending) ← draft.takeShort letters
      draft.takeAll pending rest
    | .plain => Draft.takeAll { draft with files := argument :: draft.files } .nothing rest

/-- The settings of the arguments taken. -/
def Draft.settings (draft : Draft) : CommandLine :=
  let value (option : ValueOption) : Option String := draft.values.lookup option
  { files := draft.files.reverse
    ordered := (value .ordered).map Path.mk
    style := ((value .classType).bind Style.ofName?).getD .dataclass
    formatted := !draft.unformatted
    formatter := (value .formatter).getD Formatter.defaultCommand
    lead := (value .lead).getD ""
    outputRoot := ⟨(value .outputRoot).getD "."⟩
    tablePath := (value .tablePath).map Path.mk }

/-- The settings of a list of arguments. -/
def parse (arguments : List String) : Except Stop CommandLine :=
  (Draft.takeAll ⟨[], [], false⟩ .nothing arguments).map Draft.settings

/-! ### Execution -/

/-- The settings of the run. -/
def options (settings : CommandLine) : Options :=
  { style := settings.style
    lead := settings.lead
    outputRoot := settings.outputRoot
    formatter := if settings.formatted then some settings.formatter else none
    tablePath := settings.tablePath }

/-- A run: the documents of the manifest file if one is named, else those of the files. -/
def execute (settings : CommandLine) : Action Generation Unit := do
  let manifest ← match settings.ordered with
    | some path => Generation.inWorkspace (Workspace.readManifest path)
    | none => pure (Manifest.ofFiles settings.files)
  Generation.generate settings.options manifest

/-- How a call of the program ends. -/
inductive Outcome where
  | success
  /-- Help is shown. -/
  | help
  /-- The arguments are at fault. -/
  | misuse (reason : String)
  /-- The run was given up. -/
  | failure (error : RunError)

/-- The exit code. -/
def Outcome.code : Outcome → Nat
  | .success => 0
  | .help => 0
  | .misuse _ => 2
  | .failure _ => 1

/-- A call of the program: how it ends, and the workspace after it. -/
def run (arguments : List String) (workspace : Workspace) : Outcome × Workspace :=
  match parse arguments with
  | .error .help => (.help, workspace)
  | .error (.usage reason) => (.misuse reason, workspace)
  | .ok settings =>
    match settings.execute.perform (Generation.start workspace) with
    | (.ok _, generation) => (.success, generation.workspace)
    | (.error error, generation) => (.failure error, generation.workspace)

/-- The lines that a request for help is answered with. -/
def helpLines : List String :=
  ["Generate dataclasses or TypedDicts from avro schemas", "",
    "  -o, --ordered TOML       manifest of ordered schema sets; overrides the files",
    "      --class-type STYLE   dataclass or TypedDict",
    "      --no-black           leave the files unformatted",
    "      --formatter COMMAND  command run on each package",
    "      --prefix TEXT        taken off names that start with it",
    "      --output-dir PATH    where the files go",
    "      --descriptors PATH   where the descriptor table goes",
    "  -h, --help               this text"]

end CommandLine

end AvroBindings
