import Chip8.Hex
import Chip8.Instruction.Basic

/-! The assembler line of an instruction: an operation name, a blank, and the operands separated by
commas. -/
namespace Chip8

/-- One operand of an assembler line. -/
inductive Operand where
  | register (r : UInt8)
  | byte (n : UInt8)
  /-- A small count. -/
  | count (n : UInt8)
  | address (a : Address)
  | word (w : Word)
  | index
  /-- The memory that the index register points at. -/
  | atIndex
  | delay
  | sound
  | key
  | font
  | decimal
  deriving DecidableEq, Repr

/-- Registers and constants are hexadecimal, a count is decimal. -/
def Operand.text : Operand → String
  | .register r => "V" ++ hex 1 r.toNat
  | .byte n => "0x" ++ hex 2 n.toNat
  | .count n => n.toNat.repr
  | .address a => "0x" ++ hex 3 a.toNat
  | .word w => "0x" ++ hex 4 w.toNat
  | .index => "I"
  | .atIndex => "[I]"
  | .delay => "DT"
  | .sound => "ST"
  | .key => "K"
  | .font => "F"
  | .decimal => "B"

namespace Instruction

/-- The name of the operation, shared by instructions that differ in the kinds of their operands. -/
def operation : Instruction → String
  | .clear => "CLS"
  | .ret => "RET"
  | .native _ => "SYS"
  | .jump _ | .jumpOffset _ => "JP"
  | .call _ => "CALL"
  | .skipEq _ _ | .skipEqReg _ _ => "SE"
  | .skipNe _ _ | .skipNeReg _ _ => "SNE"
  | .set _ _ | .copy _ _ | .setIndex _ | .readDelay _ | .waitKey _ | .setDelay _ | .setSound _
  | .glyph _ | .decimal _ | .save _ | .restore _ => "LD"
  | .addConst _ _ | .add _ _ | .addIndex _ => "ADD"
  | .or _ _ => "OR"
  | .and _ _ => "AND"
  | .xor _ _ => "XOR"
  | .sub _ _ => "SUB"
  | .shiftRight _ _ => "SHR"
  | .subFrom _ _ => "SUBN"
  | .shiftLeft _ _ => "SHL"
  | .random _ _ => "RND"
  | .draw _ _ _ => "DRW"
  | .skipKey _ => "SKP"
  | .skipNoKey _ => "SKNP"
  | .unknown _ => "???"

/-- The operands in the order in which they are written, the destination first. -/
def operands : Instruction → List Operand
  | .clear | .ret => []
  | .native a | .jump a | .call a => [.address a]
  | .skipEq x n | .skipNe x n | .set x n | .addConst x n | .random x n => [.register x, .byte n]
  | .skipEqReg x y | .skipNeReg x y | .copy x y | .or x y | .and x y | .xor x y | .add x y
  | .sub x y | .shiftRight x y | .subFrom x y | .shiftLeft x y => [.register x, .register y]
  | .setIndex a => [.index, .address a]
  | .jumpOffset a => [.register 0, .address a]
  | .draw x y n => [.register x, .register y, .count n]
  | .skipKey x | .skipNoKey x => [.register x]
  | .readDelay x => [.register x, .delay]
  | .waitKey x => [.register x, .key]
  | .setDelay x => [.delay, .register x]
  | .setSound x => [.sound, .register x]
  | .addIndex x => [.index, .register x]
  | .glyph x => [.font, .register x]
  | .decimal x => [.decimal, .register x]
  | .save x => [.atIndex, .register x]
  | .restore x => [.register x, .atIndex]
  | .unknown w => [.word w]

def mnemonic (i : Instruction) : String :=
  match i.operands with
  | [] => i.operation
  | os => i.operation ++ " " ++ ", ".intercalate (os.map Operand.text)

example : (set 0 10).mnemonic = "LD V0, 0x0A" := by decide
example : (draw 1 2 5).mnemonic = "DRW V1, V2, 5" := by decide
example : (unknown 0xE3A2).mnemonic = "??? 0xE3A2" := by decide

end Instruction
end Chip8
