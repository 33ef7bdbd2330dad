import AvroBindings.Text.CaseTable

/-!
# Letter case

Capital and small letters of single characters, by the full case mappings of Unicode: a letter
may have a capital of two or three characters (`ß` becomes `SS`), and no neighbour of the letter
is looked at.

## Main Definitions

* `isUpper` — the derived property `Uppercase`.
* `toLower`, `toUpper` — the full mappings; a character without one is its own image.

## Design Notes

ASCII is decided by rule and everything above it by the tables of `Text.CaseTable`.  The names
of a schema that has been checked are ASCII, so most statements never open the tables.
-/

namespace AvroBindings.Text

open CaseTable

/-- Whether a character has the derived property `Uppercase`. -/
def isUpper (c : Char) : Bool :=
  if c.toNat < 0x80 then c.isUpper
  else uppercaseSpans.any fun span => span.contains c.toNat

/-- The image of a character above ASCII: its expansion if it has one, else its shift if it has
one, else itself. -/
def mapped (expansions : List (Nat × List Nat)) (shifts : List Shift) (c : Char) : List Char :=
  match expansions.lookup c.toNat with
  | some codes => codes.map Char.ofNat
  | none =>
    match shifts.findSome? fun shift => shift.apply? c.toNat with
    | some code => [Char.ofNat code]
    | none => [c]

/-- The small form of a character. -/
def toLower (c : Char) : List Char :=
  if c.toNat < 0x80 then [c.toLower] else mapped lowerExpansions lowerShifts c

/-- The capital form of a character. -/
def toUpper (c : Char) : List Char :=
  if c.toNat < 0x80 then [c.toUpper] else mapped upperExpansions upperShifts c

/-- On ASCII, `Uppercase` is core's own class. -/
theorem isUpper_of_ascii {c : Char} (h : c.toNat < 0x80) : isUpper c = c.isUpper := by
  simp [isUpper, h]

/-- On ASCII, the small form is one character. -/
theorem toLower_of_ascii {c : Char} (h : c.toNat < 0x80) : toLower c = [c.toLower] := by
  simp [toLower, h]

/-- On ASCII, the capital form is one character. -/
theorem toUpper_of_ascii {c : Char} (h : c.toNat < 0x80) : toUpper c = [c.toUpper] := by
  simp [toUpper, h]

end AvroBindings.Text
