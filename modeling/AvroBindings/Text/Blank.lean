/-!
# Blank characters

The derived property `White_Space` of Unicode, and the words that such characters set apart.

## Main Definitions

* `isBlank` — the twenty-five characters with the property.
* `trim` — a text without the blanks at its two ends.
* `words` — the longest pieces of a text that hold no blank.
-/

namespace AvroBindings.Text

/-- The code points with the property `White_Space`, as runs. -/
def blankRuns : List (Nat × Nat) :=
  [(0x09, 0x0D), (0x20, 0x20), (0x85, 0x85), (0xA0, 0xA0), (0x1680, 0x1680), (0x2000, 0x200A),
    (0x2028, 0x2029), (0x202F, 0x202F), (0x205F, 0x205F), (0x3000, 0x3000)]

/-- Whether a character has the property `White_Space`. -/
def isBlank (c : Char) : Bool :=
  blankRuns.any fun run => run.1 ≤ c.toNat && c.toNat ≤ run.2

/-- A text without the blanks at its two ends. -/
def trim (text : String) : String :=
  String.ofList ((text.toList.dropWhile isBlank).reverse.dropWhile isBlank).reverse

/-- The longest blank-free pieces of a text, in order. -/
def words (text : String) : List String :=
  ((text.toList.splitOnP isBlank).filter fun piece => !piece.isEmpty).map String.ofList

/-- Every blank of core is a blank here. -/
theorem isBlank_of_isWhitespace {c : Char} (h : c.isWhitespace = true) : isBlank c = true := by
  simp only [Char.isWhitespace, Bool.or_eq_true, decide_eq_true_eq] at h
  rcases h with ((rfl | rfl) | rfl) | rfl <;> decide

/-- Twenty-five characters have the property. -/
example : (blankRuns.map fun run => run.2 - run.1 + 1).sum = 25 := by decide

end AvroBindings.Text
