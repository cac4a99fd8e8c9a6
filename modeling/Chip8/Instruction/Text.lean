import Chip8.Instruction.Basic

/-!
# The text of an instruction

An instruction is written as its name and its operands, in decimal and behind their names, as in
`Draw { x: 1, y: 2, n: 3 }`; an unknown word stands in round brackets.

* `Instruction.record` : a name with operands.
* `Instruction.text` : the text of each instruction.
-/

namespace Chip8

namespace Instruction

/-- An operand behind its name. -/
def operandText (operand : String × Nat) : String := operand.1 ++ ": " ++ toString operand.2

/-- A name in front of its operands. -/
def record (name : String) (operands : List (String × Nat)) : String :=
  name ++ " \x7b " ++ ", ".intercalate (operands.map operandText) ++ " \x7d"

/-- The text of an instruction. -/
def text : Instruction → String
  | clearScreen => "ClearScreen"
  | ret => "Return"
  | jump nnn => record "Jump" [("nnn", nnn.toNat)]
  | call nnn => record "Call" [("nnn", nnn.toNat)]
  | jumpOffset nnn => record "JumpOffset" [("nnn", nnn.toNat)]
  | skip (.holds x nn) => record "SkipIfEqual" [("x", x), ("nn", nn.toNat)]
  | skip (.lacks x nn) => record "SkipIfNotEqual" [("x", x), ("nn", nn.toNat)]
  | skip (.equal x y) => record "SkipIfRegistersEqual" [("x", x), ("y", y)]
  | skip (.differ x y) => record "SkipIfRegistersNotEqual" [("x", x), ("y", y)]
  | skip (.pressed x) => record "SkipIfPressed" [("x", x)]
  | skip (.released x) => record "SkipIfNotPressed" [("x", x)]
  | setByte x nn => record "Load" [("x", x), ("nn", nn.toNat)]
  | addByte x nn => record "Add" [("x", x), ("nn", nn.toNat)]
  | combine .copy x y => record "Assign" [("x", x), ("y", y)]
  | combine .or x y => record "Or" [("x", x), ("y", y)]
  | combine .and x y => record "And" [("x", x), ("y", y)]
  | combine .xor x y => record "Xor" [("x", x), ("y", y)]
  | combine .add x y => record "AddRegister" [("x", x), ("y", y)]
  | combine .sub x y => record "Subtract" [("x", x), ("y", y)]
  | combine .reverseSub x y => record "ReverseSubtract" [("x", x), ("y", y)]
  | shift .right x => record "ShiftRight" [("x", x)]
  | shift .left x => record "ShiftLeft" [("x", x)]
  | setIndex nnn => record "SetIndex" [("nnn", nnn.toNat)]
  | addIndex x => record "AddToIndex" [("x", x)]
  | glyph x => record "SetIndexToGlyph" [("x", x)]
  | random x nn => record "Random" [("x", x), ("nn", nn.toNat)]
  | draw x y n => record "Draw" [("x", x), ("y", y), ("n", n)]
  | readDelay x => record "GetDelayTimer" [("x", x)]
  | readKey x => record "AwaitKeyPress" [("x", x)]
  | setDelay x => record "SetDelayTimer" [("x", x)]
  | setSound x => record "SetSoundTimer" [("x", x)]
  | storeDigits x => record "StoreBcd" [("x", x)]
  | store x => record "StoreRegisters" [("x", x)]
  | load x => record "LoadRegisters" [("x", x)]
  | unknown w => "Unknown(" ++ toString w.toNat ++ ")"

end Instruction

end Chip8
