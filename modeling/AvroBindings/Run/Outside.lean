import AvroBindings.FileTree

/-!
# The world outside the files

What a run is given that is no file: a text on standard input, documents on the web, and
programs.

## Main Definitions

* `Query` — what a run asks for.
* `Response`, `FetchFault`, `Response.document` — the answer of a server, and its document.
* `ExitStatus`, `ProgramResult` — how a program ends, and what it leaves behind.
* `Outside` — all of it, with what has been asked for so far.
* `Outside.isAddress` — the locations that are asked of the web.
* `Outside.takeInput`, `Outside.fetch`, `Outside.start` — the three things a run does with it.
* `Outside.alone` — an outside with programs and nothing else.

## Design Notes

**A parameter.**  Nothing is laid down here about what a server or a program answers, which
programs there are, or which texts read as addresses.  A statement about all workspaces is one
about all of these.

**Histories.**  An answer may depend on everything that was asked for before it.  No two answers
of one run need be alike, so whatever servers and programs do in the course of a run, there is
an outside that does it.

**Programs.**  A word may be a name or a path.  What it leads to, and whether that can be
started, is for the outside to say; a program then sees its arguments and the files.
-/

namespace AvroBindings

/-- What a run asks the world outside its files for. -/
inductive Query where
  /-- The document at an address. -/
  | document (location : String)
  /-- A run of a program. -/
  | program (word : String) (arguments : List String)
deriving DecidableEq

/-! ### Documents -/

/-- What a server answers: a status, and the text of a document unless it breaks off. -/
structure Response where
  status : Nat
  body : Except String String

/-- Why there is no document at an address. -/
inductive FetchFault where
  /-- No server answers. -/
  | unanswered (reason : String)
  /-- The answer is that something is wrong. -/
  | refused (status : Nat)
  /-- The document breaks off. -/
  | brokenOff (reason : String)

/-- The text of a fault. -/
def FetchFault.message : FetchFault → String
  | .unanswered reason => reason
  | .refused status => s!"the server answers with status {status}"
  | .brokenOff reason => reason

/-- Whether a status says that the client or the server is at fault. -/
def Response.isFault (response : Response) : Bool :=
  400 ≤ response.status && response.status < 600

/-- The document in an answer, if there is an answer. -/
def Response.document : Except String Response → Except FetchFault String
  | .error reason => .error (.unanswered reason)
  | .ok response =>
    if response.isFault then .error (.refused response.status)
    else
      match response.body with
      | .ok text => .ok text
      | .error reason => .error (.brokenOff reason)

/-! ### Programs -/

/-- How a program ends. -/
inductive ExitStatus where
  /-- It ends by itself, with a code. -/
  | code (number : Nat)
  /-- A signal ends it. -/
  | signal (name : String)
deriving DecidableEq

/-- The text of an exit status. -/
def ExitStatus.message : ExitStatus → String
  | .code number => s!"exit status: {number}"
  | .signal name => s!"signal: {name}"

/-- What a program leaves behind: how it ended, its error output, and the files. -/
structure ProgramResult where
  status : ExitStatus
  output : String
  files : FileTree

/-- What comes of starting the program that a word stands for, with some arguments, over some
files: a reason if it cannot be started. -/
abbrev Launcher := String → List String → FileTree → Except String ProgramResult

/-! ### The outside -/

/-- The world outside the files of a run. -/
structure Outside where
  /-- What on standard input has not been read. -/
  input : Content
  /-- The scheme of the address that a location reads as, if it reads as one. -/
  scheme? : String → Option String
  /-- The answer to a request for an address, after some queries; a reason if there is none. -/
  web : List Query → String → Except String Response
  /-- What comes of starting a program, after some queries. -/
  programs : List Query → Launcher
  /-- What has been asked for, in order. -/
  asked : List Query

namespace Outside

/-- An outside with some programs: nothing is on standard input, and no location is an
address. -/
def alone (launcher : Launcher) : Outside where
  input := .text ""
  scheme? _ := none
  web _ _ := .error "no such address"
  programs _ := launcher
  asked := []

/-- Whether a location is asked of the web. -/
def isAddress (outside : Outside) (location : String) : Bool :=
  match outside.scheme? location with
  | some scheme => scheme == "http" || scheme == "https"
  | none => false

/-- What is on standard input, which is handed out once. -/
def takeInput (outside : Outside) : Content × Outside :=
  (outside.input, { outside with input := .text "" })

/-- Asks for the document at an address. -/
def fetch (outside : Outside) (location : String) : Except FetchFault String × Outside :=
  (Response.document (outside.web outside.asked location),
    { outside with asked := outside.asked ++ [.document location] })

/-- Starts the program that a word stands for. -/
def start (outside : Outside) (word : String) (arguments : List String) (files : FileTree) :
    Except String ProgramResult × Outside :=
  (outside.programs outside.asked word arguments files,
    { outside with asked := outside.asked ++ [.program word arguments] })

end Outside

end AvroBindings
