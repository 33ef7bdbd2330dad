import AvroBindings.Json.Reader
import AvroBindings.Run.Outside
import AvroBindings.Schema.Error

/-!
# Faults of a run

Why reading documents or writing declarations is given up.

## Main Definitions

* `FormatterFailure` — why a formatter did not succeed.
* `RunError` — the causes.
* `RunError.headline`, `RunError.detail?`, `RunError.message` — the text, in two parts where
  something that was read is at fault: what it was, and what is wrong with it.
-/

namespace AvroBindings

/-- Why a formatter did not succeed. -/
inductive FormatterFailure where
  /-- The command has no words. -/
  | noCommand
  /-- A word of the command or the path holds a NUL character. -/
  | nulInArgument
  /-- The program could not be started. -/
  | notStarted (reason : String)
  /-- The program did not end with code nought; it had written a text to its error output. -/
  | failed (status : ExitStatus) (output : String)

/-- The text of a failure. -/
def FormatterFailure.message : FormatterFailure → String
  | .noCommand => "empty formatter command"
  | .nulInArgument => "nul byte found in provided data"
  | .notStarted reason => reason
  | .failed status output => s!"{status.message} {output}"

/-- Why a run is given up. -/
inductive RunError where
  /-- A schema is at fault. -/
  | schema (error : SchemaError)
  /-- A file operation was refused. -/
  | file (path : Path) (cause : FileError)
  /-- A directory that should be walked could not be looked at. -/
  | walk (path : Path) (cause : FileError)
  /-- There is no document at an address. -/
  | fetch (location : String) (fault : FetchFault)
  /-- The text at a location is no JSON, or JSON of the wrong shape. -/
  | json (location : String) (fault : Json.Fault)
  /-- The text of a manifest is none. -/
  | manifest (path : Path)
  /-- The formatter did not succeed. -/
  | formatter (command : String) (path : Path) (failure : FormatterFailure)

namespace RunError

/-- What went wrong. -/
def headline : RunError → String
  | .schema error => error.message
  | .file path cause => s!"{path.text}: {cause.message}"
  | .walk path cause => s!"{path.text}: IO error for operation on {path.text}: {cause.message}"
  | .fetch location _ => s!"failed to fetch {location}"
  | .json location _ => s!"invalid JSON in {location}"
  | .manifest path => s!"invalid manifest {path.text}"
  | .formatter command path failure =>
    s!"formatter `{command}` failed on {path.text}: {failure.message}"

/-- What is wrong with something that was read. -/
def detail? : RunError → Option String
  | .fetch _ fault => some fault.message
  | .json _ .truncated => some "the text ends too early"
  | .json _ .malformed => some "the text is malformed"
  | .json _ .mistyped => some "the value has an unexpected shape"
  | .manifest _ => some "not a table of location lists"
  | _ => none

/-- The whole text. -/
def message (error : RunError) : String :=
  match error.detail? with
  | some detail => s!"{error.headline}: {detail}"
  | none => error.headline

end RunError

end AvroBindings
