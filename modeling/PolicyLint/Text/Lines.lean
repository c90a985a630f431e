/-!
# Lines

A line ends at a line feed, with the carriage return before it, or at the end of the text. A
line feed at the end of a text does not begin another line, and a carriage return elsewhere is
part of its line.
-/

namespace PolicyLint.Text

/-- A line, given in reverse, without the carriage return before its line feed. -/
def dropReturn : List Char → List Char
  | '\r' :: line => line
  | line => line

/-- The lines of a text that goes on the line `start`, given in reverse. -/
def linesFrom (start : List Char) : List Char → List (List Char)
  | [] => if start.isEmpty then [] else [start.reverse]
  | c :: text =>
    if c = '\n' then (dropReturn start).reverse :: linesFrom [] text
    else linesFrom (c :: start) text

/-- The lines of a text. -/
def lines (text : List Char) : List (List Char) :=
  linesFrom [] text

end PolicyLint.Text
