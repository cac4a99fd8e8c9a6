import Chip8.Screen.Basic

/-!
# The text of a screen

A star for a pixel that is on, a blank for one that is off, and a frame around the rows.

* `Screen.text` : the framed rows, a line each.
-/

namespace Chip8

namespace Screen

/-- The character of a pixel. -/
def pixelChar (on : Bool) : Char := if on then '*' else ' '

/-- The upper and the lower edge of the frame between its corners. -/
def edge : String := String.ofList (List.replicate width '-')

/-- The line of a row. -/
def rowText (row : List Bool) : String := "|" ++ String.ofList (row.map pixelChar) ++ "|\n"

/-- The text of a screen. -/
def text (s : Screen) : String :=
  "/" ++ edge ++ "\\\n" ++ String.join (s.rows.map rowText) ++ "\\" ++ edge ++ "/\n"

end Screen

end Chip8
