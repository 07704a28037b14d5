/-!
# Lines

A line ends at a newline, and one carriage return directly before that newline
belongs to the ending. A carriage return anywhere else is part of its line, and
a text that ends in a newline has no further line after it.
-/

namespace Backdate.Text

/-- The lines of a text, without their endings. -/
def lines : List Char → List (List Char)
  | [] => []
  | '\n' :: cs => [] :: lines cs
  | '\r' :: '\n' :: cs => [] :: lines cs
  | c :: cs =>
    match lines cs with
    | [] => [[c]]
    | l :: ls => (c :: l) :: ls

/-- The first line, empty if there is none. -/
def firstLine (cs : List Char) : List Char := (lines cs).headD []

/-- Texts joined by newlines. -/
def joinLines (parts : List String) : String := String.intercalate "\n" parts

end Backdate.Text
