/-!
Colours of texts on a terminal. A text that holds a reset of its own keeps its colour behind it.
-/

namespace SoapClient.Report

/-- How a part of a text is set off. -/
inductive Style where
  | green
  | yellow
  | cyan
  | boldRed
  deriving DecidableEq

/-- The number of a style. -/
def Style.code : Style → String
  | .green => "32"
  | .yellow => "33"
  | .cyan => "36"
  | .boldRed => "1;31"

/-- What switches a style on. -/
def Style.start (style : Style) : String := "\x1b[" ++ style.code ++ "m"

/-- What switches every style off. -/
def reset : String := "\x1b[0m"

/-- The characters with a style switched on again behind each reset. -/
def resume (start : List Char) : List Char → List Char
  | '\x1b' :: '[' :: '0' :: 'm' :: rest => reset.toList ++ start ++ resume start rest
  | c :: rest => c :: resume start rest
  | [] => []

/-- Whether texts are coloured. -/
abbrev Palette := Bool

/-- A text in a style. -/
def Palette.paint (colored : Palette) (style : Style) (text : String) : String :=
  if colored then
    style.start ++ String.ofList (resume style.start.toList text.toList) ++ reset
  else text

end SoapClient.Report
