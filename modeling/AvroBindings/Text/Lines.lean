/-!
# Lines of a text

A line feed ends a line, and a carriage return that stands directly before that line feed
belongs to the end and not to the line.  The last line need not be ended; a text that ends in a
line feed has no empty line after it, and the empty text has no line at all.

## Main Definitions

* `lines` — the lines of a text, without their ends.
-/

namespace AvroBindings.Text

/-- A line without the carriage return at its end, if it has one. -/
def dropReturn (line : List Char) : List Char :=
  if line.getLast? = some '\r' then line.dropLast else line

/-- The lines of a text, without their ends.  A carriage return at the very end of the text ends
nothing, so it stays in its line. -/
def lines (text : List Char) : List (List Char) :=
  let pieces := text.splitOnP (· == '\n')
  pieces.dropLast.map dropReturn ++ (pieces.getLast?.toList.filter fun piece => !piece.isEmpty)

example : lines "a\r\n\nb\r".toList = ["a".toList, [], "b\r".toList] := by decide
example : lines [] = [] := by decide

end AvroBindings.Text
