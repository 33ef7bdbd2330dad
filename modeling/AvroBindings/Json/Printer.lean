import AvroBindings.Json.Basic
import AvroBindings.Number.Shortest

/-!
# Writing JSON

Trees as text, in a compact form and in an indented one.

## Main Definitions

* `Json.quote` — a string literal: only the quote, the backslash and the characters below U+0020
  are escaped.
* `Json.floatLayout`, `JsonNumber.write` — the text of a number.
* `Json.compact` — no blanks at all.
* `Json.pretty` — two blanks a level, one item or member a line; an empty array or object stays
  on its line.
-/

namespace AvroBindings

namespace Json

/-! ### Strings -/

/-- The two hexadecimal digits of a control character, in small letters. -/
def hexPair (code : Nat) : List Char :=
  [Nat.digitChar (code / 16), Nat.digitChar (code % 16)]

/-- A character inside a string literal. -/
def escape (c : Char) : List Char :=
  if c = '"' then ['\\', '"']
  else if c = '\\' then ['\\', '\\']
  else if c.toNat < 0x20 then
    match c.toNat with
    | 0x08 => ['\\', 'b']
    | 0x09 => ['\\', 't']
    | 0x0A => ['\\', 'n']
    | 0x0C => ['\\', 'f']
    | 0x0D => ['\\', 'r']
    | code => ['\\', 'u', '0', '0'] ++ hexPair code
  else [c]

/-- The characters of a string literal, its quotes included. -/
def quoteChars (text : List Char) : List Char :=
  '"' :: (text.flatMap escape ++ ['"'])

/-- A string literal. -/
def quote (text : String) : String := String.ofList (quoteChars text.toList)

/-! ### Numbers -/

/-- A float is written positionally from `0.00001` up to sixteen digits before the point. -/
def floatLayout : Layout := ⟨-5, 15⟩

end Json

/-- The text of a float: the shortest numeral, always with a point or an exponent, and a sign
also on a negative zero.  What is not finite has no numeral and is written as the null
literal. -/
def Binary64.write (x : Binary64) : String :=
  if !x.isFinite then "null"
  else
    let unsigned := if x.isZero then "0.0".toList else x.shortest.write Json.floatLayout
    String.ofList (if x.isNegative then '-' :: unsigned else unsigned)

/-- The text of a number. -/
def JsonNumber.write : JsonNumber → String
  | .int value => toString value
  | .float value => value.write

namespace Json

/-! ### Trees -/

mutual

/-- The text of a tree without blanks. -/
def compact : Json → String
  | .null => "null"
  | .bool true => "true"
  | .bool false => "false"
  | .number n => n.write
  | .string s => quote s
  | .array items => "[" ++ ",".intercalate (compactItems items) ++ "]"
  | .object members => "\x7b" ++ ",".intercalate (compactMembers members) ++ "\x7d"

/-- The texts of the items. -/
def compactItems : List Json → List String
  | [] => []
  | x :: xs => x.compact :: compactItems xs

/-- The texts of the members. -/
def compactMembers : List (String × Json) → List String
  | [] => []
  | (k, v) :: ms => (quote k ++ ":" ++ v.compact) :: compactMembers ms

end

/-- The start of a line at a level of indentation. -/
def newline (level : Nat) : String := "\n" ++ "".pushn ' ' (2 * level)

mutual

/-- The indented text of a tree that stands at a level. -/
def prettyAt (level : Nat) : Json → String
  | .array (x :: xs) =>
    "[" ++ ",".intercalate (prettyItems (level + 1) (x :: xs)) ++ newline level ++ "]"
  | .object (m :: ms) =>
    "\x7b" ++ ",".intercalate (prettyMembers (level + 1) (m :: ms)) ++ newline level ++ "\x7d"
  | .array [] => "[]"
  | .object [] => "\x7b\x7d"
  | .null => "null"
  | .bool true => "true"
  | .bool false => "false"
  | .number n => n.write
  | .string s => quote s

/-- The items, each on a line of its own. -/
def prettyItems (level : Nat) : List Json → List String
  | [] => []
  | x :: xs => (newline level ++ x.prettyAt level) :: prettyItems level xs

/-- The members, each on a line of its own. -/
def prettyMembers (level : Nat) : List (String × Json) → List String
  | [] => []
  | (k, v) :: ms =>
      (newline level ++ quote k ++ ": " ++ v.prettyAt level) :: prettyMembers level ms

end

/-- The indented text of a tree. -/
def pretty (json : Json) : String := json.prettyAt 0

end Json

end AvroBindings
