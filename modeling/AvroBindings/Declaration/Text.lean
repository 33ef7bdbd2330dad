import AvroBindings.Json.Printer
import AvroBindings.Text.Lines

/-!
# Texts in Python source

The three places where texts of a schema enter Python source: string literals, comments and
docstrings.

## Main Definitions

* `Python.stringLiteral` — a string in double quotes.
* `Python.commentLines` — a text as comment lines.
* `Python.docstring` — a text between triple quotes.

## Design Notes

**Literals.**  The escapes of a JSON string are escapes of a Python string with the same
meaning, so the one serves as the other.

**Docstrings.**  A backslash is doubled.  Quotes are escaped when three or more stand together,
and when they stand at the end of the text, where they would run into the closing quotes; other
quotes stay as they are.
-/

namespace AvroBindings.Python

/-- A string in double quotes. -/
def stringLiteral (text : String) : String := Json.quote text

/-- One line of a text as a comment; a blank line is a bare `#`. -/
def commentLine (indent : String) (line : List Char) : String :=
  if line.isEmpty then indent ++ "#" else indent ++ "# " ++ String.ofList line

/-- The lines of a text as comments. -/
def commentLines (indent text : String) : List String :=
  (Text.lines text.toList).map (commentLine indent)

/-- Whether the quotes at the start of a text need escapes: three or more, or nothing after
them. -/
def quotesEscaped (text : List Char) : Bool :=
  let run := (text.takeWhile (· == '"')).length
  3 ≤ run || run == text.length

/-- A text with the escapes of a docstring.  `run` says, within a run of quotes, whether the run
is escaped. -/
def escapeDoc (run : Option Bool) : List Char → List Char
  | [] => []
  | c :: rest =>
    if c = '"' then
      let escaped := run.getD (quotesEscaped (c :: rest))
      (if escaped then ['\\', '"'] else ['"']) ++ escapeDoc (some escaped) rest
    else (if c = '\\' then ['\\', '\\'] else [c]) ++ escapeDoc none rest

/-- A text between triple quotes. -/
def docstring (text : String) : String :=
  "\"\"\"" ++ String.ofList (escapeDoc none text.toList) ++ "\"\"\""

end AvroBindings.Python
