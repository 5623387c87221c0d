import Chip8.Instruction.Basic

/-! Decoding of instruction words. Every word decodes; the ones that encode nothing become
`unknown` and keep the word. -/
namespace Chip8.Instruction

/-- The arithmetic group, told apart by the last digit. -/
def decodeArithmetic (w : Word) : Instruction :=
  match w.nibble.toNat with
  | 0x0 => .copy w.x w.y
  | 0x1 => .or w.x w.y
  | 0x2 => .and w.x w.y
  | 0x3 => .xor w.x w.y
  | 0x4 => .add w.x w.y
  | 0x5 => .sub w.x w.y
  | 0x6 => .shiftRight w.x w.y
  | 0x7 => .subFrom w.x w.y
  | 0xE => .shiftLeft w.x w.y
  | _ => .unknown w

/-- The group of one register with timers, keys and memory, told apart by the low byte. -/
def decodeRegister (w : Word) : Instruction :=
  match w.byte.toNat with
  | 0x07 => .readDelay w.x
  | 0x0A => .waitKey w.x
  | 0x15 => .setDelay w.x
  | 0x18 => .setSound w.x
  | 0x1E => .addIndex w.x
  | 0x29 => .glyph w.x
  | 0x33 => .decimal w.x
  | 0x55 => .save w.x
  | 0x65 => .restore w.x
  | _ => .unknown w

/-- The instruction that `w` encodes. The last digit plays no part in the register comparisons
of groups 5 and 9. -/
def decode (w : Word) : Instruction :=
  match w.group with
  | 0x0 => if w = 0x00E0 then .clear else if w = 0x00EE then .ret else .native w.address
  | 0x1 => .jump w.address
  | 0x2 => .call w.address
  | 0x3 => .skipEq w.x w.byte
  | 0x4 => .skipNe w.x w.byte
  | 0x5 => .skipEqReg w.x w.y
  | 0x6 => .set w.x w.byte
  | 0x7 => .addConst w.x w.byte
  | 0x8 => decodeArithmetic w
  | 0x9 => .skipNeReg w.x w.y
  | 0xA => .setIndex w.address
  | 0xB => .jumpOffset w.address
  | 0xC => .random w.x w.byte
  | 0xD => .draw w.x w.y w.nibble
  | 0xE =>
    if w.byte = 0x9E then .skipKey w.x else if w.byte = 0xA1 then .skipNoKey w.x else .unknown w
  | _ => decodeRegister w

example : decode 0x00E0 = .clear := by decide
example : decode 0x8128 = .unknown 0x8128 := by decide
example : decode 0xD125 = .draw 1 2 5 := by decide

end Chip8.Instruction
