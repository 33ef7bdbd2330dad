import AvroBindings.Run.Outside
import AvroBindings.Text.ShellWord

/-!
# Programs

Three programs as functions on the files, and an outside that has these and no others.

## Main Definitions

* `Program` — what a program does with its arguments and the files.
* `Copying` — a copy under way: `Copying.copyEntry` copies an entry to a place,
  `Copying.copyPath` what a path leads to into a directory.
* `Program.find?` — the programs by name.
* `Program.launch` — starts them.

## Design Notes

**An instance.**  A run is given its programs by the outside, and no statement about runs is
about these.  They are the programs of a system on which nothing is installed: one that does
nothing, one that fails, and one that copies files and directories into a directory.  A word
with a slash is the path of a file, and no file is marked as a program.

**Copies.**  What a path leads to is copied under the path's last name.  A path that ends in `.`
or `..` has no name of its own, so what is in the directory goes straight into the other one.
A directory that is already there is kept and filled, a file that is already there is written
over; a file and a directory of one name stand in each other's way, which is complained about
without ending the copy.

**Copies into themselves.**  The names in a directory are listed when the directory is entered,
oldest first, and a directory that has just been made in it is listed with the others.  On the
way down to any entry, the first directory that is made is remembered, and coming to a
remembered directory as something to copy ends the copy.

**Termination.**  All that is made lies at or below a remembered directory, so no step of the
way down enters anything new, and the way down is no longer than the number of entries.
-/

namespace AvroBindings

/-- What a program does with its arguments and the files. -/
abbrev Program := List String → FileTree → ProgramResult

/-! ### Copies -/

/-- A copy under way. -/
structure Copying where
  files : FileTree
  /-- The directories that must not be copied. -/
  made : List Place
  /-- What has been complained about, in order. -/
  complaints : List String

/-- Something to copy: the path that names it, and its place. -/
structure Located where
  path : Path
  place : Place

/-- What stands in a directory under a name.  Slashes at the end of the directory's path are
left out of the new path, unless nothing else is in it. -/
def Located.child (directory : Located) (name : String) : Located :=
  let text := (directory.path.text.toList.reverse.dropWhile (· == '/')).reverse
  let path := if text.isEmpty then directory.path else ⟨String.ofList text⟩
  ⟨path.join name, directory.place ++ [name]⟩

/-- The names in a directory, oldest first. -/
def FileTree.namesIn (tree : FileTree) (directory : Place) : List String :=
  tree.entries.filterMap fun (place, _) =>
    match directory.isPrefixOf? place with
    | some [name] => some name
    | _ => none

namespace Copying

/-- Goes on with one more complaint. -/
def complain (copying : Copying) (complaint : String) : Copying :=
  { copying with complaints := copying.complaints ++ [complaint] }

/-- Takes steps for names in order, until a step says that it was the last one. -/
def untilLast (step : String → Copying → Copying × Bool) :
    List String → Copying → Copying × Bool
  | [], copying => (copying, false)
  | name :: rest, copying =>
    match step name copying with
    | (copying, true) => (copying, true)
    | (copying, false) => untilLast step rest copying

/-- Makes a directory unless it is there, and remembers it if it is new and `fresh`, that is, if
none has been made on the way down; whether none has been made after that. -/
def makeDirectory (copying : Copying) (fresh : Bool) (place : Place) : Copying × Bool :=
  match copying.files.get? place with
  | some _ => (copying, fresh)
  | none =>
    ({ copying with
        files := copying.files.set place .directory
        made := if fresh then place :: copying.made else copying.made }, false)

/-- Copies an entry, and what is below it, to a place.  `intoSelf` is the complaint about a copy
into itself; the second part of the result says whether it was made.  The fuel bounds the way
down. -/
def copyEntry (intoSelf : String) : Nat → Bool → Located → Located → Copying → Copying × Bool
  | 0, _, _, _, copying => (copying, false)
  | fuel + 1, fresh, source, target, copying =>
    match copying.files.get? source.place, copying.files.get? target.place with
    | none, _ => (copying, false)
    | some (.file _), some .directory =>
      (copying.complain
        s!"cannot overwrite directory {Text.shellWord target.path.text} with non-directory",
        false)
    | some (.file content), _ =>
      ({ copying with files := copying.files.set target.place (.file content) }, false)
    | some .directory, some (.file _) =>
      (copying.complain ("cannot overwrite non-directory " ++ Text.shellWord target.path.text ++
        " with directory " ++ Text.shellWord source.path.text), false)
    | some .directory, _ =>
      if copying.made.contains source.place then (copying.complain intoSelf, true)
      else
        let (copying, fresh) := copying.makeDirectory fresh target.place
        untilLast (fun name => copyEntry intoSelf fuel fresh (source.child name)
          (target.child name))
          (copying.files.namesIn source.place) copying

/-- The name under which a path is copied: the last of its pieces that is not empty, `..`
counting as `.`. -/
def nameOf (path : Path) : String :=
  match (path.pieces.filter fun piece => !piece.isEmpty).getLast? with
  | none => ""
  | some ".." => "."
  | some piece => piece

/-- Copies what a path leads to into a directory. -/
def copyPath (directory : Located) (copying : Copying) (source : Path) : Copying :=
  let name := nameOf source
  let target : Located :=
    ⟨directory.path.join name, if name = "." then directory.place
      else directory.place ++ [name]⟩
  let sourceWord := Text.shellWord source.text
  let targetWord := Text.shellWord target.path.text
  match copying.files.find source with
  | .error cause => copying.complain s!"cannot stat {sourceWord}: {cause.reason}"
  | .ok (place, _) =>
    if place = target.place then
      copying.complain s!"{sourceWord} and {targetWord} are the same file"
    else
      let intoSelf := s!"cannot copy a directory, {sourceWord}, into itself, {targetWord}"
      (copyEntry intoSelf (copying.files.entries.length + 2) true
        ⟨source, place⟩ target copying).1

end Copying

/-! ### Programs by name -/

namespace Program

/-- Copies what some paths lead to into a directory. -/
def copyInto (directory : Path) (sources : List Path) (files : FileTree) : ProgramResult :=
  let refusal (cause : FileError) : ProgramResult :=
    ⟨.code 1, s!"cp: target directory {Text.shellWord directory.text}: {cause.reason}", files⟩
  match files.find directory with
  | .error cause => refusal cause
  | .ok (_, .file _) => refusal .notDirectory
  | .ok (place, .directory) =>
    let copied := sources.foldl (Copying.copyPath ⟨directory, place⟩) ⟨files, [], []⟩
    let output := "\n".intercalate (copied.complaints.map fun complaint => "cp: " ++ complaint)
    ⟨.code (if copied.complaints.isEmpty then 0 else 1), output, copied.files⟩

/-- The program of a name. -/
def find? : String → Option Program
  | "true" => some fun _ files => ⟨.code 0, "", files⟩
  | "false" => some fun _ files => ⟨.code 1, "", files⟩
  | "cp" => some fun arguments files =>
    match arguments with
    | "-r" :: "-t" :: directory :: sources => copyInto ⟨directory⟩ (sources.map Path.mk) files
    | _ => ⟨.code 1, "cp: unsupported arguments", files⟩
  | _ => none

/-- Starts the program that a word stands for. -/
def launch : Launcher := fun word arguments files =>
  if word.toList.any (· == '/') then
    match files.find ⟨word⟩ with
    | .ok _ => .error "Permission denied (os error 13)"
    | .error cause => .error cause.message
  else if word.utf8ByteSize > FileTree.nameLimit then .error FileError.nameTooLong.message
  else
    match find? word with
    | some program => .ok (program arguments files)
    | none => .error FileError.notFound.message

end Program

end AvroBindings
