import AvroBindings.Json.Basic

/-!
# Reading JSON

Texts to trees, strictly by RFC 8259: no comments, no trailing commas, no byte order mark.

## Main Definitions

* `Json.Fault` — what can be wrong with a text.
* `Json.Reader` — a function from the characters that are left to a value and what is left after
  it.
* `Json.foldItems`, `Json.foldMembers` — the insides of an array and of an object, each part
  handed to a step as soon as it is reached.
* `Json.value` — one value.
* `Json.read` — a whole text, repeated members kept.
* `Json.parse` — a whole text, `Json.collapse` applied.

## Design Notes

**Two kinds of bad text.**  A text that stops too early is told from one that goes wrong in the
middle: every branch that looks at the next character and finds none answers `truncated`.

**Numbers.**  The digits of a float are gathered into one 64 bit word; digits that no longer fit
are dropped from the fraction and count as a power of ten in the integer part.  The word is
rounded to binary64 and then multiplied or divided by a power of ten, which rounds again.  So a
numeral of up to nineteen digits with a small exponent reads as the nearest number, and a long
or extreme one may come out a step beside it.

**Termination.**  `value` counts its fuel down once for every array or object it enters, and a
part of one takes at least one character, so the length of the text and one is enough.  `room`
is the number of arrays and objects that may still be opened, plus one.
-/

namespace AvroBindings.Json

/-- What can be wrong with a text: it stops too early, it breaks the grammar (or a limit on
numbers or nesting), or it holds a well-formed value of another shape than asked for. -/
inductive Fault where
  | truncated
  | malformed
  | mistyped
deriving DecidableEq

/-- Reads a value off the front of a text. -/
abbrev Reader (α : Type) := List Char → Except Fault (α × List Char)

/-- The four blank characters of JSON. -/
def isSpace (c : Char) : Bool := c == ' ' || c == '\t' || c == '\n' || c == '\r'

/-- What is left after leading blanks. -/
def skipSpace (text : List Char) : List Char := text.dropWhile isSpace

/-! ### Literals and strings -/

/-- The rest of a literal name. -/
def keyword (json : Json) : List Char → Reader Json
  | [], text => .ok (json, text)
  | _ :: _, [] => .error .truncated
  | expected :: more, c :: text =>
    if c = expected then keyword json more text else .error .malformed

/-- The value of a hexadecimal digit. -/
def hexDigit? (c : Char) : Option Nat :=
  if '0' ≤ c && c ≤ '9' then some (c.toNat - '0'.toNat)
  else if 'a' ≤ c && c ≤ 'f' then some (c.toNat - 'a'.toNat + 10)
  else if 'A' ≤ c && c ≤ 'F' then some (c.toNat - 'A'.toNat + 10)
  else none

/-- The value of four hexadecimal digits. -/
def hexWord? (a b c d : Char) : Option Nat := do
  let a ← hexDigit? a
  let b ← hexDigit? b
  let c ← hexDigit? c
  let d ← hexDigit? d
  return ((a * 16 + b) * 16 + c) * 16 + d

/-- The fault of a text that does not go on with four hexadecimal digits: it is truncated if
fewer than four bytes are left. -/
def hexFault (text : List Char) : Fault :=
  if text.foldl (fun size c => size + c.utf8Size) 0 < 4 then .truncated else .malformed

/-- The character of an escape of one letter. -/
def simpleEscape? : Char → Option Char
  | '"' => some '"'
  | '\\' => some '\\'
  | '/' => some '/'
  | 'b' => some '\x08'
  | 'f' => some '\x0c'
  | 'n' => some '\n'
  | 'r' => some '\r'
  | 't' => some '\t'
  | _ => none

/-- The rest of a string after its opening quote; `seen` holds the characters so far, last
first.  A code point above U+FFFF is spelled as a leading and a trailing surrogate, and a
surrogate stands nowhere else. -/
def stringTail (seen : List Char) : Reader String
  | [] => .error .truncated
  | '"' :: text => .ok (String.ofList seen.reverse, text)
  | '\\' :: 'u' :: a :: b :: c :: d :: text =>
    match hexWord? a b c d with
    | none => .error (hexFault (a :: b :: c :: d :: text))
    | some unit =>
      if 0xDC00 ≤ unit && unit ≤ 0xDFFF then .error .malformed
      else if 0xD800 ≤ unit && unit ≤ 0xDBFF then
        match text with
        | '\\' :: 'u' :: e :: f :: g :: h :: text =>
          match hexWord? e f g h with
          | none => .error (hexFault (e :: f :: g :: h :: text))
          | some trail =>
            if 0xDC00 ≤ trail && trail ≤ 0xDFFF then
              stringTail (Char.ofNat (0x10000 + (unit - 0xD800) * 0x400 + (trail - 0xDC00)) ::
                seen) text
            else .error .malformed
        | '\\' :: 'u' :: text => .error (hexFault text)
        | ['\\'] | [] => .error .truncated
        | _ => .error .malformed
      else stringTail (Char.ofNat unit :: seen) text
  | '\\' :: 'u' :: text => .error (hexFault text)
  | ['\\'] => .error .truncated
  | '\\' :: c :: text =>
    match simpleEscape? c with
    | some c => stringTail (c :: seen) text
    | none => .error .malformed
  | c :: text => if c.toNat < 0x20 then .error .malformed else stringTail (c :: seen) text

/-! ### Numbers -/

/-- The largest value of a 64 bit word. -/
def wordMax : Nat := Nat.pow 2 64 - 1

/-- Appends digits to a word for as long as it fits: the word, the number of digits taken, and
the rest. -/
def gather (word taken : Nat) : List Char → Nat × Nat × List Char
  | [] => (word, taken, [])
  | c :: text =>
    let longer := word * 10 + (c.toNat - '0'.toNat)
    if c.isDigit && longer ≤ wordMax then gather longer (taken + 1) text
      else (word, taken, c :: text)

/-- Divides by a power of ten, in blocks of `10 ^ 308`. -/
def divideByPower (x : Binary64) (k : Nat) : Binary64 :=
  if k ≤ 308 then x.div (Binary64.powerOfTen k)
  else if x.isZero then x
  else divideByPower (x.div (Binary64.powerOfTen 308)) (k - 308)
termination_by k

/-- The float `word * 10 ^ exponent` with a sign; a value too large is a fault. -/
def floatOf (negative : Bool) (word : Nat) (exponent : Int) : Except Fault JsonNumber :=
  let x := Binary64.ofNat word
  let scaled :=
    if exponent < 0 then divideByPower x (-exponent).toNat
    else if x.isZero then x
    else if exponent ≤ 308 then x.mul (Binary64.powerOfTen exponent.toNat)
    else Binary64.infinity false
  if scaled.isFinite then .ok (.float (if negative then scaled.neg else scaled))
    else .error .malformed

/-- An integer, kept as one when it fits a signed or an unsigned 64 bit word; a negative zero is
a float. -/
def integerOf (negative : Bool) (word : Nat) : JsonNumber :=
  if !negative then .int word
  else if word = 0 || word > Nat.pow 2 63 then .float (Binary64.ofNat word).neg
  else .int (-(word : Int))

/-- The exponent of a float after its letter. -/
def exponentTail (negative : Bool) (word : Nat) (shift : Int) (text : List Char) :
    Except Fault (JsonNumber × List Char) := do
  let (down, text) :=
    match text with
    | '+' :: text => (false, text)
    | '-' :: text => (true, text)
    | text => (false, text)
  match text with
  | [] => .error .truncated
  | c :: _ =>
    if !c.isDigit then .error .malformed
    else
      let size : Nat :=
        (text.takeWhile Char.isDigit).foldl (fun n d => n * 10 + (d.toNat - '0'.toNat)) 0
      let n ← floatOf negative word (shift + if down then -(size : Int) else size)
      return (n, text.dropWhile Char.isDigit)

/-- The fraction of a float after its point; `shift` counts the integer digits that did not
fit. -/
def fractionTail (negative : Bool) (word : Nat) (shift : Int) (text : List Char) :
    Except Fault (JsonNumber × List Char) := do
  match text with
  | [] => .error .truncated
  | c :: _ =>
    if !c.isDigit then .error .malformed
    else
      let (word, taken, text) := gather word 0 text
      match text.dropWhile Char.isDigit with
      | 'e' :: text | 'E' :: text => exponentTail negative word (shift - taken) text
      | text => return (← floatOf negative word (shift - taken), text)

/-- A number after its sign. -/
def numberTail (negative : Bool) (text : List Char) :
    Except Fault (JsonNumber × List Char) := do
  match text with
  | [] => .error .truncated
  | '0' :: text =>
    match text with
    | '.' :: text => fractionTail negative 0 0 text
    | 'e' :: text | 'E' :: text => exponentTail negative 0 0 text
    | c :: _ => if c.isDigit then .error .malformed else return (integerOf negative 0, text)
    | [] => return (integerOf negative 0, [])
  | c :: _ =>
    if !c.isDigit then .error .malformed
    else
      let (word, _, rest) := gather 0 0 text
      let shift : Int := (rest.takeWhile Char.isDigit).length
      match rest.dropWhile Char.isDigit with
      | '.' :: text => fractionTail negative word shift text
      | 'e' :: text | 'E' :: text => exponentTail negative word shift text
      | text =>
        if shift = 0 then return (integerOf negative word, text)
        else return (← floatOf negative word shift, text)

/-! ### Arrays and objects -/

/-- The items of an array after its bracket, each read by `step` from the state before it.
`fuel` bounds the number of items. -/
def foldItems {σ : Type} (step : σ → Reader σ) : Nat → Bool → σ → Reader σ
  | 0, _, _, _ => .error .malformed
  | fuel + 1, first, state, text => do
    match skipSpace text with
    | [] => .error .truncated
    | ']' :: text => return (state, text)
    | c :: text =>
      let start ←
        if first then .ok (c :: text)
        else if c = ',' then
          match skipSpace text with
          | [] => .error .truncated
          | ']' :: _ => .error .malformed
          | text => .ok text
        else .error .malformed
      let (state, text) ← step state start
      foldItems step fuel false state text

/-- The key of a member. -/
def memberKey : Reader String
  | '"' :: text => stringTail [] text
  | _ => .error .malformed

/-- What is left after the colon between a key and its value. -/
def afterColon (text : List Char) : Except Fault (List Char) :=
  match skipSpace text with
  | [] => .error .truncated
  | ':' :: text => .ok text
  | _ => .error .malformed

/-- The members of an object after its brace.  What follows the key of each, from the colon on,
is read by `step` from the state before it and the key.  `fuel` bounds the number of members. -/
def foldMembers {σ : Type} (step : σ → String → Reader σ) : Nat → Bool → σ → Reader σ
  | 0, _, _, _ => .error .malformed
  | fuel + 1, first, state, text => do
    match skipSpace text with
    | [] => .error .truncated
    | '\x7d' :: text => return (state, text)
    | c :: text =>
      let start ←
        if first then .ok (c :: text)
        else if c = ',' then
          match skipSpace text with
          | [] => .error .truncated
          | text => .ok text
        else .error .malformed
      let (key, text) ← memberKey start
      let (state, text) ← step state key text
      foldMembers step fuel false state text

/-! ### Values and whole texts -/

/-- One value, leading blanks allowed. -/
def value : Nat → Nat → Reader Json
  | 0, _, _ => .error .malformed
  | fuel + 1, room, text => do
    match skipSpace text with
    | [] => .error .truncated
    | 'n' :: text => keyword .null "ull".toList text
    | 't' :: text => keyword (.bool true) "rue".toList text
    | 'f' :: text => keyword (.bool false) "alse".toList text
    | '"' :: text =>
      let (s, text) ← stringTail [] text
      return (.string s, text)
    | '[' :: text =>
      if room ≤ 1 then .error .malformed
      else
        let (items, text) ← foldItems (fun items text => do
          let (item, text) ← value fuel (room - 1) text
          return (item :: items, text)) (fuel + 1) true [] text
        return (.array items.reverse, text)
    | '\x7b' :: text =>
      if room ≤ 1 then .error .malformed
      else
        let (members, text) ← foldMembers (fun members key text => do
          let (item, text) ← value fuel (room - 1) (← afterColon text)
          return ((key, item) :: members, text)) (fuel + 1) true [] text
        return (.object members.reverse, text)
    | '-' :: text =>
      let (n, text) ← numberTail true text
      return (.number n, text)
    | c :: text =>
      if c.isDigit then
        let (n, text) ← numberTail false (c :: text)
        return (.number n, text)
      else .error .malformed

/-- At most this many arrays and objects, less one, may be open at a time. -/
def nestingRoom : Nat := 128

/-- The fuel that reads any text of this length. -/
def fuelFor (text : List Char) : Nat := text.length + 1

/-- Nothing but blanks may follow the value of a text. -/
def finish {α : Type} : α × List Char → Except Fault α
  | (result, text) => if (skipSpace text).isEmpty then .ok result else .error .malformed

/-- The tree of a whole text, repeated members kept. -/
def read (text : String) : Except Fault Json :=
  value (fuelFor text.toList) nestingRoom text.toList >>= finish

/-- The tree of a whole text, a repeated member reduced to its last value at its first place. -/
def parse (text : String) : Except Fault Json :=
  (read text).map collapse

end AvroBindings.Json
