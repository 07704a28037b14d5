/-!
# Coloured text

A style is a list of display codes. Text in a style stands between the sequence
that turns the style on and the one that turns everything off; where the text
itself turns everything off, the style is turned on again.
-/

namespace Backdate.Text

/-- A way to show text, by its display codes. -/
structure Style where
  codes : String
  deriving DecidableEq, Repr

namespace Style

def bold : Style := ⟨"1"⟩
def dimmed : Style := ⟨"2"⟩
def red : Style := ⟨"31"⟩
def yellow : Style := ⟨"33"⟩
def boldRed : Style := ⟨"1;31"⟩
def boldGreen : Style := ⟨"1;32"⟩
def boldYellow : Style := ⟨"1;33"⟩
def boldCyan : Style := ⟨"1;36"⟩

/-- The sequence that turns a style on. -/
def on (s : Style) : List Char := ['\x1b', '['] ++ s.codes.toList ++ ['m']

end Style

/-- A text with `again` put after each sequence that turns all styles off. -/
def resume (again : List Char) : List Char → List Char
  | [] => []
  | '\x1b' :: '[' :: '0' :: 'm' :: cs => ['\x1b', '[', '0', 'm'] ++ again ++ resume again cs
  | c :: cs => c :: resume again cs

/-- A text in a style, or as it is without colours. -/
def paint (colour : Bool) (style : Style) (text : String) : String :=
  if colour then
    String.ofList (style.on ++ resume style.on text.toList ++ ['\x1b', '[', '0', 'm'])
  else text

end Backdate.Text
