/-! Instruction words, addresses, and the fields that operands occupy in a word.

    0x D 1 2 5
       | | | |-- nibble, the low half of the byte
       | | |---- y
       | |------ x, the first digit of the address
       |-------- group
-/
namespace Chip8

abbrev Word := UInt16

/-- A 16-bit address; memory looks at its low twelve bits only. -/
abbrev Address := UInt16

namespace Word

/-- The word stored big-endian as the bytes `hi` and `lo`. -/
def ofBytes (hi lo : UInt8) : Word := UInt16.ofNat (256*hi.toNat + lo.toNat)

@[simp] theorem toNat_ofBytes (hi lo : UInt8) :
    (ofBytes hi lo).toNat = 256*hi.toNat + lo.toNat := by
  have := hi.toNat_lt
  have := lo.toNat_lt
  simp only [ofBytes, UInt16.toNat_ofNat']
  omega

/-- The number read off `count` hexadecimal digits of `w`, starting with digit `first`, where the
leftmost of the four digits is digit 1. A digit is four bits. -/
def digits (w : Word) (first count : Nat) : Nat :=
  w.toNat >>> (4*(5-first-count)) % 1 <<< (4*count)

@[simp] theorem digits_zero (w : Word) (first : Nat) : w.digits first 0 = 0 := by
  simp [digits, Nat.mod_one]

/-- The digit that selects the kind of instruction. -/
def group (w : Word) : Nat := w.digits 1 1

def x (w : Word) : UInt8 := UInt8.ofNat (w.digits 2 1)

def y (w : Word) : UInt8 := UInt8.ofNat (w.digits 3 1)

def nibble (w : Word) : UInt8 := UInt8.ofNat (w.digits 4 1)

def byte (w : Word) : UInt8 := UInt8.ofNat (w.digits 3 2)

def address (w : Word) : Address := UInt16.ofNat (w.digits 2 3)

theorem group_eq (w : Word) : w.group = w.toNat / 4096 := by
  have := w.toNat_lt
  simp only [group, digits, Nat.shiftRight_eq_div_pow, Nat.one_shiftLeft]
  omega

theorem toNat_x (w : Word) : w.x.toNat = w.toNat / 256 % 16 := by
  simp only [x, digits, Nat.shiftRight_eq_div_pow, Nat.one_shiftLeft, UInt8.toNat_ofNat']
  omega

theorem toNat_y (w : Word) : w.y.toNat = w.toNat / 16 % 16 := by
  simp only [y, digits, Nat.shiftRight_eq_div_pow, Nat.one_shiftLeft, UInt8.toNat_ofNat']
  omega

theorem toNat_nibble (w : Word) : w.nibble.toNat = w.toNat % 16 := by
  simp only [nibble, digits, Nat.shiftRight_eq_div_pow, Nat.one_shiftLeft, UInt8.toNat_ofNat']
  omega

theorem toNat_byte (w : Word) : w.byte.toNat = w.toNat % 256 := by
  simp only [byte, digits, Nat.shiftRight_eq_div_pow, Nat.one_shiftLeft, UInt8.toNat_ofNat']
  omega

theorem toNat_address (w : Word) : w.address.toNat = w.toNat % 4096 := by
  simp only [address, digits, Nat.shiftRight_eq_div_pow, Nat.one_shiftLeft, UInt16.toNat_ofNat']
  omega

example : (0x4CEE : Word).digits 2 2 = 0xCE := by decide
example : (0xD125 : Word).address = 0x125 := by decide

end Word
end Chip8
