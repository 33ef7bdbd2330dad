import AvroBindings.Run.Workspace
import AvroBindings.Text.Blank

/-!
# Formatters

A command that is run over every generated package.

## Main Definitions

* `Formatter.run` — runs a command over a path.

## Design Notes

The words of a command are a program and its first arguments; the path is the last argument.
Words and path are handed over with a NUL as their end, so one that holds a NUL keeps the
program from being started at all.  What the first word stands for is up to the outside.
-/

namespace AvroBindings.Formatter

/-- The command that is run when no other is asked for. -/
def defaultCommand : String := "black"

/-- Whether a text holds a NUL. -/
def holdsNul (text : String) : Bool := text.toList.any (· == '\x00')

/-- Runs a command over a path. -/
def run (command : String) (path : Path) : Action Workspace Unit := do
  match Text.words command with
  | [] => throw (.formatter command path .noCommand)
  | word :: rest =>
    let arguments := rest ++ [path.text]
    if (word :: arguments).any holdsNul then throw (.formatter command path .nulInArgument)
    let workspace ← get
    match workspace.outside.start word arguments workspace.files with
    | (.error reason, outside) =>
      set { workspace with outside := outside }
      throw (.formatter command path (.notStarted reason))
    | (.ok result, outside) =>
      set (⟨result.files, outside⟩ : Workspace)
      if result.status ≠ .code 0 then
        throw (.formatter command path (.failed result.status (Text.trim result.output)))

end AvroBindings.Formatter
