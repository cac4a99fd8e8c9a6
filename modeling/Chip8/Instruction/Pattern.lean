import Chip8.Hex
import Chip8.Instruction.Basic

/-!
# The instruction table

The words that are instructions, as a table of patterns. A pattern has four characters, from the
highest digit of a word to the lowest: a hexadecimal digit stands for itself, and each of the
letters `X`, `Y` and `N` for any digit.

* `Word.digit` : one of the four digits of a word.
* `Pattern.admits`, `Word.fits`, `Word.fitsAny` : a digit of a pattern, a whole one, and one of
  some.
* `Instruction.patterns` : the table.
* `Instruction.pattern`, `Instruction.InRows` : the row of an instruction.
-/

namespace Chip8

/-- Digit number `k` of a word, counted from the lowest. -/
def Word.digit (w : Word) (k : Nat) : Nat := (w.toNat >>> (4 * k)) % 16

/-- The character of a pattern admits the digit `d`. -/
def Pattern.admits (c : Char) (d : Nat) : Bool :=
  c == 'X' || c == 'Y' || c == 'N' || d == Hex.value c

/-- The word fits the pattern, digit by digit. -/
def Word.fits (w : Word) (pattern : String) : Bool :=
  match pattern.toList with
  | [a, b, c, d] =>
    Pattern.admits a (w.digit 3) && Pattern.admits b (w.digit 2) &&
      Pattern.admits c (w.digit 1) && Pattern.admits d (w.digit 0)
  | _ => false

/-- The word fits one of the patterns. -/
def Word.fitsAny (w : Word) (rows : List String) : Bool := rows.any w.fits

namespace Instruction

/-- The words that are instructions. -/
def patterns : List String :=
  ["00E0", "00EE", "1NNN", "2NNN", "3XNN", "4XNN", "5XY0", "6XNN", "7XNN",
    "8XY0", "8XY1", "8XY2", "8XY3", "8XY4", "8XY5", "8XY6", "8XY7", "8XYE", "9XY0",
    "ANNN", "BNNN", "CXNN", "DXYN", "EX9E", "EXA1",
    "FX07", "FX0A", "FX15", "FX18", "FX1E", "FX29", "FX33", "FX55", "FX65"]

/-- The row of the table that stands for an instruction; a word that is none has no row. -/
def pattern : Instruction → Option String
  | clearScreen => "00E0"
  | ret => "00EE"
  | jump _ => "1NNN"
  | call _ => "2NNN"
  | skip (.holds ..) => "3XNN"
  | skip (.lacks ..) => "4XNN"
  | skip (.equal ..) => "5XY0"
  | setByte .. => "6XNN"
  | addByte .. => "7XNN"
  | combine .copy .. => "8XY0"
  | combine .or .. => "8XY1"
  | combine .and .. => "8XY2"
  | combine .xor .. => "8XY3"
  | combine .add .. => "8XY4"
  | combine .sub .. => "8XY5"
  | shift .right _ => "8XY6"
  | combine .reverseSub .. => "8XY7"
  | shift .left _ => "8XYE"
  | skip (.differ ..) => "9XY0"
  | setIndex _ => "ANNN"
  | jumpOffset _ => "BNNN"
  | random .. => "CXNN"
  | draw .. => "DXYN"
  | skip (.pressed _) => "EX9E"
  | skip (.released _) => "EXA1"
  | readDelay _ => "FX07"
  | readKey _ => "FX0A"
  | setDelay _ => "FX15"
  | setSound _ => "FX18"
  | addIndex _ => "FX1E"
  | glyph _ => "FX29"
  | storeDigits _ => "FX33"
  | store _ => "FX55"
  | load _ => "FX65"
  | unknown _ => none

/-- One of the rows stands for the instruction. -/
def InRows (rows : List String) (i : Instruction) : Prop := ∃ p ∈ rows, i.pattern = some p

end Instruction

end Chip8
