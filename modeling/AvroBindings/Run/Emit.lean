import AvroBindings.Run.Workspace
import AvroBindings.Declaration.Source

/-!
# Writing declarations

One named type into its file.

## Main Definitions

* `Emitted` — a type that has been written, and where.
* `Emitted.write` — writes a type into its file below a directory.
* `Emitted.ofSchema` — describes a qualified schema and writes it.
-/

namespace AvroBindings

/-- A named type that has been written, and the path of its file. -/
structure Emitted where
  path : Path
  type : NamedType

namespace Emitted

/-- The ending of the name of every file. -/
def fileExtension : String := "py"

/-- The file of a named type below a directory. -/
def pathOf (root : Path) (type : NamedType) : Path := Name.filePath root fileExtension type.name

/-- Writes a named type into its file, the directories above it made first. -/
def write (type : NamedType) (style : Style) (root : Path) : Action Workspace Emitted := do
  let path := pathOf root type
  if let some parent := path.parent? then Workspace.makeDirectories parent
  Workspace.writeText path (type.source style)
  return ⟨path, type⟩

/-- Describes a qualified schema and writes it into its file. -/
def ofSchema (schema : Json) (style : Style) (lead : String) (root : Path) :
    Action Workspace Emitted := do
  match NamedType.ofSchema lead schema with
  | .ok type => write type style root
  | .error error => throw (.schema error)

end Emitted

end AvroBindings
