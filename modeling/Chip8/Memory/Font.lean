import Chip8.Memory.Basic

/-! The built-in pictures of the sixteen hexadecimal digits, four pixels wide and five rows high. -/
namespace Chip8

/-- The rows of the pictures of `0` to `F`, one after the other. -/
def font : List UInt8 :=
  [0xF0, 0x90, 0x90, 0x90, 0xF0,
   0x20, 0x60, 0x20, 0x20, 0x70,
   0xF0, 0x10, 0xF0, 0x80, 0xF0,
   0xF0, 0x10, 0xF0, 0x10, 0xF0,
   0x90, 0x90, 0xF0, 0x10, 0x10,
   0xF0, 0x80, 0xF0, 0x10, 0xF0,
   0xF0, 0x80, 0xF0, 0x90, 0xF0,
   0xF0, 0x10, 0x20, 0x40, 0x40,
   0xF0, 0x90, 0xF0, 0x90, 0xF0,
   0xF0, 0x90, 0xF0, 0x10, 0xF0,
   0xF0, 0x90, 0xF0, 0x90, 0x90,
   0xE0, 0x90, 0xE0, 0x90, 0xE0,
   0xF0, 0x80, 0x80, 0x80, 0xF0,
   0xE0, 0x90, 0x90, 0x90, 0xE0,
   0xF0, 0x80, 0xF0, 0x80, 0xF0,
   0xF0, 0x80, 0xF0, 0x80, 0x80]

/-- Where the pictures stand in memory. -/
def fontStart : Address := 0x050

def glyphRows : Nat := 5

/-- The address of the picture of the digit in the low four bits of `digit`. -/
def glyphAddress (digit : UInt8) : Address :=
  fontStart + UInt16.ofNat (digit.toNat % 16 * glyphRows)

/-- Memory as a machine starts with it: the pictures and nothing else. -/
def Memory.initial : Memory := Memory.blank.writeAll fontStart font

example : font.length = 16 * glyphRows := by decide
example : glyphAddress 0x1A = glyphAddress 0xA := by decide

end Chip8
