import Chip8.Hex

/-!
# The keypad

Sixteen keys, `0` to `F`, each pressed or not.

* `Keypad.isPressed` : the state of a key; a number without a key is never pressed.
* `Keypad.firstPressed` : the lowest pressed key.
* `Key.ofNat?`, `KeyWrite`, `Keypad.write` : writes by number; a number without a key is refused.
* `Keypad.text` : the keys as they lie on the pad.
-/

namespace Chip8

/-- A key. -/
abbrev Key := Nibble

namespace Key

/-- The number of keys. -/
abbrev count : Nat := 16

/-- The key with a number, if there is one. -/
def ofNat? (k : Nat) : Option Key := if h : k < count then some ⟨k, h⟩ else none

/-- The keys as they lie on the pad, row by row. -/
def layout : List (List Key) :=
  [[0x1, 0x2, 0x3, 0xC], [0x4, 0x5, 0x6, 0xD], [0x7, 0x8, 0x9, 0xE], [0xA, 0x0, 0xB, 0xF]].map
    (·.filterMap ofNat?)

end Key

/-- The state of all keys. -/
structure Keypad where
  /-- The pressed keys are true. -/
  keys : Vector Bool Key.count
  deriving DecidableEq

/-- A write to a keypad. -/
inductive KeyWrite where
  /-- One key, by its number. -/
  | set (key : Nat) (pressed : Bool)
  /-- All keys at once. -/
  | setAll (keys : Keypad)

namespace Keypad

/-- The keypad without a pressed key. -/
def released : Keypad := ⟨.replicate Key.count false⟩

/-- The keypad on which exactly the given keys are pressed. -/
def ofKeys (ks : List Nat) : Keypad := ⟨.ofFn fun k => ks.contains k.val⟩

variable (p : Keypad)

/-- Key `k` is pressed. -/
def get (k : Key) : Bool := p.keys[k]

/-- Presses or releases a key. -/
def set (k : Key) (pressed : Bool) : Keypad := ⟨p.keys.set k pressed⟩

/-- Presses a released key and releases a pressed one. -/
def toggle (k : Key) : Keypad := p.set k (!p.get k)

/-- The key with number `k` is pressed; where there is no such key, nothing is. -/
def isPressed (k : Nat) : Bool := (Key.ofNat? k).any p.get

/-- The pressed keys, the lowest first. -/
def pressed : List Key := (List.finRange Key.count).filter p.get

/-- The lowest pressed key. -/
def firstPressed : Option Key := (List.finRange Key.count).find? p.get

/-- The keypad after a write; `none` if the write names no key. -/
def write : KeyWrite → Option Keypad
  | .set key pressed => (Key.ofNat? key).map (p.set · pressed)
  | .setAll keys => some keys

/-- The character of a key: its digit while it is pressed. -/
def keyChar (k : Key) : Char := if p.get k then Hex.digit k else '.'

/-- The line of some keys. -/
def rowText (row : List Key) : String := String.ofList (row.map p.keyChar) ++ "\n"

/-- The keys as they lie on the pad, a line for each row. -/
def text : String := String.join (Key.layout.map p.rowText)

/-! ### Reading after writing -/

variable {p}

theorem get_set (j k : Key) (b : Bool) : (p.set j b).get k = if j = k then b else p.get k := by
  simp [get, set, Vector.getElem_set, Fin.ext_iff]

end Keypad

end Chip8
