/-!
# Shell words

A text as one word of a shell's command line, in ASCII: the way in which programs name files in
their complaints.

## Main Definitions

* `shellWord` — the word of a text.

## Design Notes

The word stands in single quotes.  A text with a single quote in it stands in double quotes if
no other character of it has a meaning there or in a shell.  Else a single quote is written
outside the quotes, with a backslash.  Control characters, and the bytes of characters above
ASCII, are written as escapes in quotes that start with a dollar sign.

A text with a single quote in it is gone through twice, first to see whether double quotes will
do.  The second pass starts as the first one ended: after a text that ends in an escape it takes
the escapes to be still open, so before a printable character the word starts by closing them.
-/

namespace AvroBindings.Text

/-- Whether a byte is a printable ASCII character. -/
def isPrintable (byte : Nat) : Bool := 0x20 ≤ byte && byte < 0x7F

/-- Whether a printable character has no meaning of its own, neither between double quotes nor
in a shell.  A `#` or a `~` has one unless it comes first. -/
def isHarmless (first : Bool) (c : Char) : Bool :=
  isPrintable c.toNat && !"!\"$&()*;<=>[^`|?\\\x7b\x7d".toList.contains c &&
    (first || (c != '#' && c != '~'))

/-- Whether all of a text is harmless. -/
def allHarmless : List Char → Bool
  | [] => true
  | c :: rest => isHarmless true c && rest.all (isHarmless false)

/-- The escape of a byte: a letter if there is one, else three octal digits. -/
def byteEscape (byte : Nat) : List Char :=
  match byte with
  | 0x07 => ['\\', 'a']
  | 0x08 => ['\\', 'b']
  | 0x09 => ['\\', 't']
  | 0x0A => ['\\', 'n']
  | 0x0B => ['\\', 'v']
  | 0x0C => ['\\', 'f']
  | 0x0D => ['\\', 'r']
  | byte =>
      ['\\', Nat.digitChar (byte / 64), Nat.digitChar (byte / 8 % 8), Nat.digitChar (byte % 8)]

/-- The inside of a word in single quotes; `escaping` says whether the quotes that are open
started with a dollar sign. -/
def quotedBytes (escaping : Bool) : List Nat → List Char
  | [] => []
  | byte :: rest =>
    if byte = 0x27 then ['\x27', '\\', '\x27', '\x27'] ++ quotedBytes false rest
    else if isPrintable byte then
      (if escaping then ['\x27', '\x27'] else []) ++ Char.ofNat byte :: quotedBytes false rest
    else (if escaping then [] else ['\x27', '$', '\x27']) ++ byteEscape byte ++
      quotedBytes true rest

/-- Whether the spelling of some bytes ends in an escape. -/
def endsInEscape (bytes : List Nat) : Bool := bytes.getLast?.any fun byte => !isPrintable byte

/-- A text as one word of a shell's command line. -/
def shellWord (text : String) : String :=
  let bytes := text.toUTF8.toList.map UInt8.toNat
  let twice := bytes.contains 0x27
  if twice && allHarmless text.toList then "\"" ++ text ++ "\""
  else "'" ++ String.ofList (quotedBytes (twice && endsInEscape bytes) bytes) ++ "'"

example : shellWord "d/e" = "'d/e'" := by decide +kernel
example : shellWord "it's" = "\"it's\"" ∧ shellWord "it's $1" = "'it'\\''s $1'" :=
  by decide +kernel
example : shellWord "it's\n" = "'''it'\\''s'$'\\n'" := by decide +kernel
example : shellWord "a\nb" = "'a'$'\\n''b'" ∧ shellWord "é" = "''$'\\303\\251'" :=
  by decide +kernel

end AvroBindings.Text
