import AvroBindings.Path

/-!
# File trees

The files and directories that a run sees, as plain data, with the operations that a run
performs on them.

## Main Definitions

* `Place` — where an entry is: the names from the working directory down to it.
* `FileTree` — the entries by place.
* `FileError` — why an operation is refused.
* `FileTree.resolve` — the place that a path leads to.
* `FileTree.readText`, `FileTree.writeText`, `FileTree.createEmpty`, `FileTree.makeDirectory`,
  `FileTree.makeDirectories` — the operations.
* `FileTree.directoriesUnder` — the directories at and below a place, in the order of a walk.

## Main Statements

* `FileTree.get?_set` — setting an entry changes that entry and no other.

## Design Notes

**Order of checks.**  A path is followed name by name.  Each name is looked up in what the names
before it lead to, and that must be a directory; only then is the name itself looked at.  So a
missing directory hides a name that is too long, and a file in the way hides both.

**Outside.**  The working directory, the directories above it and the root exist without an
entry.  A walk from one of them comes to the entries below it, and not to those whose place
starts with another of them.

**No links.**  A name leads to one entry, and `..` leads back up.
-/

namespace AvroBindings

/-- Why an operation on files is refused. -/
inductive FileError where
  | notFound
  | exists
  | notDirectory
  | isDirectory
  | nameTooLong
  /-- The path holds a NUL character. -/
  | nulInPath
  /-- The file holds bytes that are no text in UTF-8. -/
  | notText
deriving DecidableEq

/-- The reason of a refusal. -/
def FileError.reason : FileError → String
  | .notFound => "No such file or directory"
  | .exists => "File exists"
  | .notDirectory => "Not a directory"
  | .isDirectory => "Is a directory"
  | .nameTooLong => "File name too long"
  | .nulInPath => "file name contained an unexpected NUL byte"
  | .notText => "stream did not contain valid UTF-8"

/-- The number of the condition, where the operating system gives it one. -/
def FileError.number? : FileError → Option Nat
  | .notFound => some 2
  | .exists => some 17
  | .notDirectory => some 20
  | .isDirectory => some 21
  | .nameTooLong => some 36
  | .nulInPath => none
  | .notText => none

/-- The text of a refusal: the reason, with the number where there is one. -/
def FileError.message (error : FileError) : String :=
  match error.number? with
  | some number => s!"{error.reason} (os error {number})"
  | none => error.reason

/-- The names from the working directory down to an entry.  A place above the working directory
starts with `..`, and one that was reached from the root starts with `/`. -/
abbrev Place := List String

/-- What a file holds: a text, or bytes that are no text in UTF-8. -/
inductive Content where
  | text (value : String)
  | bytes (value : List UInt8)
deriving DecidableEq

/-- What stands at a place. -/
inductive FileEntry where
  | directory
  | file (content : Content)
deriving DecidableEq

/-- The entries by place. -/
structure FileTree where
  entries : List (Place × FileEntry)

namespace FileTree

/-- No entries. -/
def empty : FileTree := ⟨[]⟩

instance : Inhabited FileTree := ⟨empty⟩

/-- The places that are directories without an entry. -/
def isGround (place : Place) : Bool := place.all (· == "..") || place == ["/"]

/-- What stands at a place. -/
def get? (tree : FileTree) (place : Place) : Option FileEntry :=
  if isGround place then some .directory else tree.entries.lookup place

/-- Sets an entry in a list of entries, in place or at the end. -/
def setEntry (place : Place) (entry : FileEntry) :
    List (Place × FileEntry) → List (Place × FileEntry)
  | [] => [(place, entry)]
  | (p, e) :: rest =>
      if p = place then (p, entry) :: rest else (p, e) :: setEntry place entry rest

/-- The tree with an entry set. -/
def set (tree : FileTree) (place : Place) (entry : FileEntry) : FileTree :=
  ⟨setEntry place entry tree.entries⟩

theorem lookup_setEntry (place other : Place) (entry : FileEntry)
    (entries : List (Place × FileEntry)) :
    (setEntry place entry entries).lookup other =
      if other = place then some entry else entries.lookup other := by
  have differ {a b : Place} (h : ¬a = b) : (a == b) = false := beq_eq_false_iff_ne.2 h
  induction entries with
  | nil => by_cases h : other = place <;> simp [setEntry, List.lookup_cons, h, differ]
  | cons first rest ih =>
    obtain ⟨p, e⟩ := first
    by_cases hp : p = place
    · subst hp; by_cases h : other = p <;> simp [setEntry, List.lookup_cons, h, differ]
    · by_cases h : other = p
      · subst h; simp [setEntry, hp]
      · simp [setEntry, hp, List.lookup_cons, differ h, ih]

/-- Setting an entry changes that entry and no other. -/
theorem get?_set {tree : FileTree} {place other : Place} {entry : FileEntry}
    (h : isGround place = false) :
    (tree.set place entry).get? other =
      if other = place then some entry else tree.get? other := by
  unfold get? set
  by_cases hg : isGround other
  · have : other ≠ place := fun e => by simp [e, h] at hg
    simp [hg, this]
  · simp [hg, lookup_setEntry]

/-! ### Following paths -/

/-- Only a directory has places below it. -/
def requireDirectory (tree : FileTree) (place : Place) : Except FileError Unit :=
  match tree.get? place with
  | some .directory => .ok ()
  | some (.file _) => .error .notDirectory
  | none => .error .notFound

/-- The directory above a place. -/
def above (place : Place) : Place :=
  if place == ["/"] then place
  else if place.all (· == "..") then place ++ [".."]
  else place.dropLast

/-- Names may be this many bytes long. -/
def nameLimit : Nat := 255

/-- Paths may be this many bytes long. -/
def pathLimit : Nat := 4095

/-- The place below a directory; its name must not be too long. -/
def below (place : Place) (name : String) : Except FileError Place :=
  if name.utf8ByteSize > nameLimit then .error .nameTooLong else .ok (place ++ [name])

/-- Follows the pieces of a path from a place. -/
def follow (tree : FileTree) (here : Place) : List String → Except FileError Place
  | [] => .ok here
  | piece :: rest => do
    tree.requireDirectory here
    if piece.isEmpty || piece == "." then tree.follow here rest
    else if piece == ".." then tree.follow (above here) rest
    else tree.follow (← below here piece) rest

/-- The texts that are paths at all: not empty, without NUL and not too long. -/
def checkPath (path : Path) : Except FileError Unit :=
  if path.text.toList.any (· == '\x00') then .error .nulInPath
  else if path.text.isEmpty then .error .notFound
  else if path.text.utf8ByteSize > pathLimit then .error .nameTooLong
  else .ok ()

/-- The place where following a path starts. -/
def startOf (path : Path) : Place := if path.isAbsolute then ["/"] else []

/-- The place that a path leads to; nothing need stand there. -/
def resolve (tree : FileTree) (path : Path) : Except FileError Place := do
  checkPath path
  tree.follow (startOf path) path.pieces

/-- What a path leads to. -/
def find (tree : FileTree) (path : Path) : Except FileError (Place × FileEntry) := do
  let place ← tree.resolve path
  match tree.get? place with
  | some entry => .ok (place, entry)
  | none => .error .notFound

/-- Whether a path leads to a directory. -/
def isDirectory (tree : FileTree) (path : Path) : Bool :=
  match tree.find path with
  | .ok (_, .directory) => true
  | _ => false

/-- Where a path would put a new entry. -/
structure Target where
  /-- The directory around it. -/
  parent : Place
  name : String
  /-- Whether the path asks for a directory by a slash at its end. -/
  slashed : Bool

/-- Where a path would put a new entry; nothing for a path that ends in `.` or `..`, which can
name nothing new. -/
def target (tree : FileTree) (path : Path) : Except FileError (Option Target) := do
  checkPath path
  let pieces := path.pieces.reverse
  match pieces.dropWhile String.isEmpty with
  | [] => return none
  | name :: parents =>
    let parent ← tree.follow (startOf path) parents.reverse
    tree.requireDirectory parent
    if name == "." || name == ".." then return none
    else return some ⟨parent, name, pieces.head?.any String.isEmpty⟩

/-! ### Operations -/

/-- The text of a file. -/
def readText (tree : FileTree) (path : Path) : Except FileError String := do
  match ← tree.find path with
  | (_, .file (.text value)) => return value
  | (_, .file (.bytes _)) => throw .notText
  | (_, .directory) => throw .isDirectory

/-- Writes a file, over an old one if there is one. -/
def writeText (tree : FileTree) (path : Path) (value : String) : Except FileError FileTree := do
  match ← tree.target path with
  | none | some ⟨_, _, true⟩ => throw .isDirectory
  | some ⟨parent, name, false⟩ =>
    let place ← below parent name
    match tree.get? place with
    | some .directory => throw .isDirectory
    | _ => return tree.set place (.file (.text value))

/-- Creates an empty file where nothing stands. -/
def createEmpty (tree : FileTree) (path : Path) : Except FileError FileTree := do
  match ← tree.target path with
  | none | some ⟨_, _, true⟩ => throw .isDirectory
  | some ⟨parent, name, false⟩ =>
    let place ← below parent name
    match tree.get? place with
    | some _ => throw .exists
    | none => return tree.set place (.file (.text ""))

/-- Creates a directory where nothing stands. -/
def makeDirectory (tree : FileTree) (path : Path) : Except FileError FileTree := do
  match ← tree.target path with
  | none => throw .exists
  | some ⟨parent, name, _⟩ =>
    let place ← below parent name
    match tree.get? place with
    | some _ => throw .exists
    | none => return tree.set place .directory

/-- A refusal to create a directory does not matter if the directory is there. -/
def unlessThere (tree : FileTree) (path : Path) (error : FileError) : Option FileError :=
  if tree.isDirectory path then none else some error

/-- Makes the first of some paths a directory, each path followed by its parent.  What was
created before a refusal stays. -/
def makeFirst : List Path → FileTree → Option FileError × FileTree
  | [], tree => (none, tree)
  | path :: parents, tree =>
    if path.text.isEmpty then (none, tree)
    else
      match tree.makeDirectory path with
      | .ok tree => (none, tree)
      | .error .notFound =>
        match makeFirst parents tree with
        | (some error, tree) => (some error, tree)
        | (none, tree) =>
          match tree.makeDirectory path with
          | .ok tree => (none, tree)
          | .error error => (tree.unlessThere path error, tree)
      | .error error => (tree.unlessThere path error, tree)

/-- Makes a path a directory, and the directories above it as needed. -/
def makeDirectories (tree : FileTree) (path : Path) : Option FileError × FileTree :=
  makeFirst path.ancestors tree

/-- Whether names lead down from a place; from the working directory and those above it some
lead elsewhere. -/
def leadsDown (names : Place) : Bool := names.head? != some ".." && names.head? != some "/"

/-- The directories at and below a place, as the names from there on.  A directory comes before
what is in it, and names are in the order of their characters. -/
def directoriesUnder (tree : FileTree) (place : Place) : List Place :=
  let found := tree.entries.filterMap fun (p, entry) =>
    if entry = .directory then (place.isPrefixOf? p).filter leadsDown else none
  let all := if isGround place then [] :: found else found
  all.mergeSort fun a b => !decide (b < a)

end FileTree

end AvroBindings
