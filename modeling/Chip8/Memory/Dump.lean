import Chip8.Memory.Basic

/-!
# Memory dumps

Memory is shown in rows of eight words. Rows of zeros that follow each other are shown as one line,
which names their range only.

* `Dump.Row`, `Memory.rows` : the rows of a memory.
* `Dump.Line`, `Dump.collapse` : the lines, with runs of zero rows drawn together.
* `Dump.linesFrom` : the same lines, written one after the other.
* `Dump.Line.text`, `Memory.dump` : their texts, each as wide as the others.
-/

namespace Chip8

namespace Dump

/-- The words of a row. -/
def wordsPerRow : Nat := 8

/-- The cells of a row. -/
def rowSize : Nat := wordsPerRow * Word.size

/-- The rows of a memory. -/
def rowCount : Nat := Memory.size / rowSize

/-- A row of memory. -/
structure Row where
  /-- The address of its first cell. -/
  start : Nat
  /-- Its words. -/
  words : List Word
  deriving DecidableEq, Repr

/-- The address of the last cell of a row. -/
def Row.stop (r : Row) : Nat := r.start + (rowSize - 1)

/-- All cells of the row are zero. -/
def Row.isZero (r : Row) : Bool := r.words.all (· == 0)

/-- A line of a dump. -/
inductive Line where
  /-- One row, word by word. -/
  | row (r : Row)
  /-- Two or more rows of zeros, from the cell `start` to the cell `stop`. -/
  | gap (start stop : Nat)
  deriving DecidableEq, Repr

/-- Puts a row in front of the lines that follow it. -/
def Line.cons (r : Row) : List Line → List Line
  | .gap start stop :: lines =>
    if r.isZero then .gap r.start stop :: lines else .row r :: .gap start stop :: lines
  | .row s :: lines =>
    if r.isZero && s.isZero then .gap r.start s.stop :: lines else .row r :: .row s :: lines
  | [] => [.row r]

/-- The lines for rows that follow each other. -/
def collapse (rows : List Row) : List Line := rows.foldr Line.cons []

/-- The address of the first cell that a line shows. -/
def Line.start : Line → Nat
  | row r => r.start
  | gap start _ => start

/-- The address of the last cell that a line shows. -/
def Line.stop : Line → Nat
  | row r => r.stop
  | gap _ stop => stop

/-- The lines from row number `i` on, one after the other. At a row of zeros the zero rows from
there on are counted; two or more are shown at once and passed over. -/
def linesFrom (rows : List Row) (i : Nat) : List Line :=
  if h : i < rows.length then
    let run := ((rows.drop i).takeWhile Row.isZero).length
    if rows[i].isZero ∧ 2 ≤ run then
      .gap (rowSize * i) (rowSize * (i + run) - 1) :: linesFrom rows (i + run)
    else .row rows[i] :: linesFrom rows (i + 1)
  else []
termination_by rows.length - i

/-! ### Texts -/

/-- The range of cells in front of a line. -/
def range (start stop : Nat) : String := Hex.word start ++ " - " ++ Hex.word stop ++ " :"

/-- The blanks on each side of the dots of a gap, which make it as wide as a row. -/
def gapBlanks : String := String.ofList (List.replicate 20 ' ')

/-- The text of a line. -/
def Line.text : Line → String
  | row r => range r.start r.stop ++ String.join (r.words.map fun w => " " ++ Hex.word w.toNat)
  | gap start stop =>
    range start stop ++ " " ++ Hex.word 0 ++ gapBlanks ++ "..." ++ gapBlanks ++ Hex.word 0

end Dump

namespace Memory

open Dump

/-- Row number `i` of a memory. -/
def row (m : Memory) (i : Fin rowCount) : Row where
  start := rowSize * i
  words := .ofFn fun j : Fin wordsPerRow =>
    .ofBytes (m.cell (rowSize * i + Word.size * j)) (m.cell (rowSize * i + Word.size * j + 1))

/-- The rows of a memory, from address zero on. -/
def rows (m : Memory) : List Row := .ofFn m.row

/-- The lines of a dump. -/
def dump (m : Memory) : List Line := collapse m.rows

end Memory

end Chip8
