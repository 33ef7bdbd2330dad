import AvroBindings.Path
import AvroBindings.Text.Case

/-!
# Names

The names of an Avro schema and what a Python program calls the same things.

## Main Definitions

* `Name.isSimple`, `Name.isFull` — the names that a schema may define.
* `Name.qualify` — a name in the namespace around it.
* `Name.split` — a name's namespace and its last segment.
* `Name.stripPrefix` — a name without a leading piece of text.
* `Name.className`, `Name.fileStem`, `Name.modulePath`, `Name.filePath`, `Name.packageRoot` —
  the class, the file, the module and the top package of a name.

## Design Notes

A name is plain text.  Only `isFull` names are ever registered, but a prefix is taken off as
text and may cut a name anywhere, so every function here answers for every text.
-/

namespace AvroBindings.Name

/-! ### Avro names -/

/-- Whether a character may start a simple name: an ASCII letter or an underscore. -/
def isStart (c : Char) : Bool := c.isAlpha || c == '_'

/-- Whether a character may go on in a simple name: also an ASCII digit. -/
def isPart (c : Char) : Bool := c.isAlphanum || c == '_'

/-- Whether the characters form a simple name. -/
def isSimpleChars : List Char → Bool
  | [] => false
  | c :: rest => isStart c && rest.all isPart

/-- Whether a text is a simple name. -/
def isSimple (name : String) : Bool := isSimpleChars name.toList

/-- The pieces between the dots. -/
def segments (name : String) : List (List Char) := name.toList.splitOnP (· == '.')

/-- Whether a text is a full name: simple names with dots between them. -/
def isFull (name : String) : Bool := (segments name).all isSimpleChars

/-- Whether a text has a dot. -/
def isDotted (name : String) : Bool := name.toList.any (· == '.')

/-- A name in a namespace.  A dotted name is a full name already, and the empty namespace adds
nothing. -/
def qualify (namespaceName name : String) : String :=
  if isDotted name || namespaceName.isEmpty then name else namespaceName ++ "." ++ name

/-! ### Parts -/

/-- What stands before the last dot and what stands after it; without a dot the first part is
empty. -/
def split (name : String) : String × String :=
  let pieces := segments name
  (String.ofList (['.'].intercalate pieces.dropLast), String.ofList (pieces.getLast?.getD []))

/-- The part before the last dot. -/
def space (name : String) : String := (split name).1

/-- The part after the last dot. -/
def last (name : String) : String := (split name).2

/-- A name without a leading text, if it starts with it. -/
def stripPrefix (lead name : String) : String :=
  match lead.toList.isPrefixOf? name.toList with
  | some rest => String.ofList rest
  | none => name

/-! ### Names in Python -/

/-- A text with a capital as its first letter. -/
def capitalize : List Char → List Char
  | [] => []
  | c :: rest => Text.toUpper c ++ rest

/-- The class of a name: its last segment, with a capital first letter. -/
def className (name : String) : String := String.ofList (capitalize (last name).toList)

/-- Every upper case letter becomes an underscore and the small letter. -/
def underscored (text : List Char) : List Char :=
  text.flatMap fun c => if Text.isUpper c then '_' :: Text.toLower c else [c]

/-- Small letters with an underscore before every letter that was upper case, the first letter
apart. -/
def snakeChars : List Char → List Char
  | [] => []
  | c :: rest => (if Text.isUpper c then Text.toLower c else [c]) ++ underscored rest

/-- A text in small letters, its words set apart by underscores. -/
def snake (text : String) : String := String.ofList (snakeChars text.toList)

/-- The stem of the file of a name. -/
def fileStem (name : String) : String := snake (last name)

/-- The module of a name. -/
def modulePath (name : String) : String :=
  if (space name).isEmpty then fileStem name else space name ++ "." ++ fileStem name

/-- The segments of the namespace of a name that are not empty. -/
def packages (name : String) : List String :=
  ((segments (space name)).filter fun piece => !piece.isEmpty).map String.ofList

/-- The file of a name below a directory. -/
def filePath (root : Path) (extension name : String) : Path :=
  ((packages name).foldl Path.join root).join (fileStem name ++ "." ++ extension)

/-- The first segment of the namespace of a name, if that segment is not empty. -/
def packageRoot? (name : String) : Option String :=
  match (segments (space name)).head? with
  | some (c :: rest) => some (String.ofList (c :: rest))
  | _ => none

example : className "a.weatherReport" = "WeatherReport" := by decide +kernel
example : modulePath "a.HTTPCode" = "a.h_t_t_p_code" := by decide +kernel
example : filePath ⟨"out"⟩ "py" "a..B" = ⟨"out/a/b.py"⟩ := by decide +kernel
example : packageRoot? "a.b.C" = some "a" ∧ packageRoot? ".C" = none := by decide +kernel

end AvroBindings.Name
