import Chip8.Word

/-! The instruction set. An instruction may hold any operands; the decoder only makes those with
registers below sixteen and addresses below 4096. -/
namespace Chip8

/-- One instruction. The operands `x` and `y` name registers, `n` is a constant and `a` an address. -/
inductive Instruction where
  | clear
  | ret
  /-- Call a native routine of the host; there is none, so nothing happens. -/
  | native (a : Address)
  | jump (a : Address)
  | call (a : Address)
  | skipEq (x n : UInt8)
  | skipNe (x n : UInt8)
  | skipEqReg (x y : UInt8)
  | skipNeReg (x y : UInt8)
  | set (x n : UInt8)
  /-- `Vx := Vx + n`, leaving the flag alone. -/
  | addConst (x n : UInt8)
  | copy (x y : UInt8)
  | or (x y : UInt8)
  | and (x y : UInt8)
  | xor (x y : UInt8)
  /-- `Vx := Vx + Vy`, the flag being the carry. -/
  | add (x y : UInt8)
  /-- `Vx := Vx - Vy`, the flag being set when nothing was borrowed. -/
  | sub (x y : UInt8)
  /-- `Vx := Vx / 2`, the flag being the bit shifted out; `y` plays no part. -/
  | shiftRight (x y : UInt8)
  /-- `Vx := Vy - Vx`, the flag being set when nothing was borrowed. -/
  | subFrom (x y : UInt8)
  /-- `Vx := 2*Vx`, the flag being the bit shifted out; `y` plays no part. -/
  | shiftLeft (x y : UInt8)
  | setIndex (a : Address)
  | jumpOffset (a : Address)
  /-- `Vx :=` a random byte masked with `n`. -/
  | random (x n : UInt8)
  /-- XOR the `n` bytes at `I` into the display at column `Vx` and row `Vy`. -/
  | draw (x y n : UInt8)
  /-- Skip the next instruction if the key named by `Vx` is down. -/
  | skipKey (x : UInt8)
  | skipNoKey (x : UInt8)
  | readDelay (x : UInt8)
  /-- Wait until a key goes down and put its number into `Vx`. -/
  | waitKey (x : UInt8)
  | setDelay (x : UInt8)
  | setSound (x : UInt8)
  | addIndex (x : UInt8)
  /-- Point `I` at the built-in picture of the digit in `Vx`. -/
  | glyph (x : UInt8)
  /-- Store the three decimal digits of `Vx` at `I`. -/
  | decimal (x : UInt8)
  | save (x : UInt8)
  | restore (x : UInt8)
  /-- A word that encodes no instruction. -/
  | unknown (w : Word)
  deriving DecidableEq, Repr

end Chip8
