import Chip8.Word

/-!
# Programs

A program is a named sequence of bytes.
-/

namespace Chip8

/-- A program to load. -/
structure Rom where
  /-- Its name, empty if it has none. -/
  name : String := ""
  /-- Its bytes. -/
  data : List Byte
  deriving DecidableEq, Repr

/-- The number of bytes. -/
def Rom.size (r : Rom) : Nat := r.data.length

end Chip8
