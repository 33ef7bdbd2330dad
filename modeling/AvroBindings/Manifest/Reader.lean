import AvroBindings.Manifest.Basic

/-!
# Reading manifests

A manifest is written in TOML as a list of lines `name = [locations]`.

## Main Definitions

* `Manifest.parse?` — the manifest of a text, if it is one.

## Design Notes

Of TOML exactly the documents that stand for a map from names to lists of strings are accepted.
In such a document every line is blank, a comment, or an assignment of an array of strings to a
simple key; tables, dotted keys and all other values have another meaning and make the text no
manifest.  Keys and strings are accepted in each of their spellings, and an array may spread
over lines.  A key must not be assigned twice.
-/

namespace AvroBindings.Manifest

/-- Reads something off the front of a text, or finds that the text is no manifest. -/
abbrev Reader (α : Type) := List Char → Option (α × List Char)

/-! ### Characters -/

/-- Whether a character may stand in a comment or, delimiters apart, in a string: no control
character but the tab. -/
def isPlain (c : Char) : Bool := c == '\t' || (c.toNat ≥ 0x20 && c.toNat != 0x7F)

/-- Whether a character is a blank within a line. -/
def isSpace (c : Char) : Bool := c == ' ' || c == '\t'

/-- What is left after blanks. -/
def skipSpace (text : List Char) : List Char := text.dropWhile isSpace

/-- What is left after the end of a line, if one comes first. -/
def newline? : List Char → Option (List Char)
  | '\n' :: text => some text
  | '\r' :: '\n' :: text => some text
  | _ => none

/-- What is left after a comment, if one comes first. -/
def skipComment : List Char → List Char
  | '#' :: text => text.dropWhile isPlain
  | text => text

/-- What is left after blanks, comments and ends of lines. -/
def skipFiller : Nat → List Char → List Char
  | 0, text => text
  | limit + 1, text =>
    let rest := skipComment (skipSpace text)
    match newline? rest with
    | some rest => skipFiller limit rest
    | none => rest

/-- What is left after blanks and ends of lines. -/
def skipBlankLines : Nat → List Char → List Char
  | 0, text => text
  | limit + 1, text =>
    match newline? (skipSpace text) with
    | some rest => skipBlankLines limit rest
    | none => skipSpace text

/-- The value of a hexadecimal digit. -/
def hexDigit? (c : Char) : Option Nat :=
  if '0' ≤ c && c ≤ '9' then some (c.toNat - '0'.toNat)
  else if 'a' ≤ c && c ≤ 'f' then some (c.toNat - 'a'.toNat + 10)
  else if 'A' ≤ c && c ≤ 'F' then some (c.toNat - 'A'.toNat + 10)
  else none

/-- The character of a code point in hexadecimal; surrogates are none. -/
def codePoint? (digits : List Char) : Option Char := do
  let code ← digits.foldlM (fun n d => (hexDigit? d).map (n * 16 + ·)) 0
  if code.isValidChar then some (Char.ofNat code) else none

/-! ### Strings -/

/-- The character of an escape after its backslash, and what is left. -/
def escape? : Reader Char
  | 'b' :: text => some ('\x08', text)
  | 't' :: text => some ('\t', text)
  | 'n' :: text => some ('\n', text)
  | 'f' :: text => some ('\x0c', text)
  | 'r' :: text => some ('\r', text)
  | '"' :: text => some ('"', text)
  | '\\' :: text => some ('\\', text)
  | 'u' :: text =>
      if text.length < 4 then none else (codePoint? (text.take 4)).map (·, text.drop 4)
  | 'U' :: text =>
      if text.length < 8 then none else (codePoint? (text.take 8)).map (·, text.drop 8)
  | _ => none

/-- What is left after a backslash that ends a line: the blanks after it, the end of the line,
and all blanks and ends of lines that follow. -/
def joinedLine? (text : List Char) : Option (List Char) := do
  let rest ← newline? (skipSpace text)
  return skipBlankLines (rest.length + 1) rest

/-- A string on one line after its opening delimiter; `escapes` says whether a backslash has a
meaning. -/
def lineString (delimiter : Char) (escapes : Bool) : Nat → List Char → Reader String
  | 0, _, _ => none
  | _ + 1, _, [] => none
  | limit + 1, seen, c :: text =>
    if c = delimiter then some (String.ofList seen.reverse, text)
    else if escapes && c == '\\' then do
      let (c, text) ← escape? text
      lineString delimiter escapes limit (c :: seen) text
    else if isPlain c then lineString delimiter escapes limit (c :: seen) text
    else none

/-- A string over several lines after its opening delimiter.  Two delimiter characters may stand
together in it; of a run of up to five the last three close it. -/
def blockString (delimiter : Char) (escapes : Bool) : Nat → List Char → Reader String
  | 0, _, _ => none
  | _ + 1, _, [] => none
  | limit + 1, seen, c :: text =>
    if c = delimiter then
      let run := (c :: text).takeWhile (· == delimiter)
      if run.length < 3 then
        blockString delimiter escapes limit (run ++ seen) ((c :: text).drop run.length)
      else
        let length := min run.length 5
        some (String.ofList (run.take (length - 3) ++ seen).reverse, (c :: text).drop length)
    else if escapes && c == '\\' then
      match joinedLine? text with
      | some text => blockString delimiter escapes limit seen text
      | none => do
        let (c, text) ← escape? text
        blockString delimiter escapes limit (c :: seen) text
    else
      match newline? (c :: text) with
      | some text => blockString delimiter escapes limit ('\n' :: seen) text
      | none => if isPlain c then blockString delimiter escapes limit (c :: seen) text else none

/-- What is left after the end of a line that directly follows an opening delimiter. -/
def skipFirstNewline (text : List Char) : List Char := (newline? text).getD text

/-- A string in any of the four spellings. -/
def stringValue : Reader String
  | '"' :: '"' :: '"' :: text =>
      blockString '"' true (text.length + 1) [] (skipFirstNewline text)
  | '\x27' :: '\x27' :: '\x27' :: text =>
      blockString '\x27' false (text.length + 1) [] (skipFirstNewline text)
  | '"' :: text => lineString '"' true (text.length + 1) [] text
  | '\x27' :: text => lineString '\x27' false (text.length + 1) [] text
  | _ => none

/-! ### Assignments -/

/-- Whether a character may stand in a key without quotes. -/
def isBare (c : Char) : Bool := c.isAlphanum || c == '_' || c == '-'

/-- A simple key. -/
def key : Reader String
  | '"' :: text => lineString '"' true (text.length + 1) [] text
  | '\x27' :: text => lineString '\x27' false (text.length + 1) [] text
  | text =>
    let bare := text.takeWhile isBare
    if bare.isEmpty then none else some (String.ofList bare, text.dropWhile isBare)

/-- The strings of an array after its bracket or after a comma. -/
def arrayTail : Nat → List Char → Option (List String × List Char)
  | 0, _ => none
  | limit + 1, text =>
    match skipFiller (text.length + 1) text with
    | ']' :: text => some ([], text)
    | text => do
      let (value, text) ← stringValue text
      match skipFiller (text.length + 1) text with
      | ']' :: text => return ([value], text)
      | ',' :: text =>
        let (values, text) ← arrayTail limit text
        return (value :: values, text)
      | _ => none

/-- An assignment of an array of strings. -/
def assignment (text : List Char) : Option ((String × List String) × List Char) := do
  let (name, text) ← key text
  match skipSpace text with
  | '=' :: text =>
    match skipSpace text with
    | '[' :: text =>
      let (values, text) ← arrayTail (text.length + 1) text
      return ((name, values), text)
    | _ => none
  | _ => none

/-- The assignments of the lines of a text. -/
def assignments : Nat → List Char → Option (List (String × List String))
  | 0, _ => none
  | limit + 1, text =>
    match skipFiller (text.length + 1) text with
    | [] => some []
    | text => do
      let (entry, text) ← assignment text
      let rest := skipComment (skipSpace text)
      match rest with
      | [] => return [entry]
      | rest => return entry :: (← assignments limit (← newline? rest))

/-- What is left after a byte order mark. -/
def skipMark : List Char → List Char
  | '\uFEFF' :: text => text
  | text => text

/-- The manifest of a text, if it is one. -/
def parse? (text : String) : Option Manifest := do
  let text := skipMark text.toList
  let entries ← assignments (text.length + 1) text
  if (Entries.keys entries).Nodup then some entries else none

end AvroBindings.Manifest
