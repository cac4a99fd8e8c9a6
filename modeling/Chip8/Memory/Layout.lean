import Chip8.Word

/-!
# The address space

Where things lie in the 4096 cells of memory: the font first, then cells that stay unused, then the
program and its data.

* `Memory.size`, `Memory.last`, `Memory.mask` : the extent of the addresses.
* `Memory.origin`, `Memory.capacity` : where a program starts and how long it may be.
-/

namespace Chip8

namespace Memory

/-- The number of cells. -/
def size : Nat := 0x1000

/-- The highest address. -/
def last : Nat := size - 1

/-- The bits of a masked address. -/
def mask : Nat := last

/-- The address of the first byte of a program. -/
def origin : Nat := 0x200

/-- The number of bytes that a program may have. -/
def capacity : Nat := last - origin

end Memory

end Chip8
