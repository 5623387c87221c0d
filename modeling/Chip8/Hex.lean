/-! Hexadecimal numerals as listings and messages write them: upper case, with zeros in front
up to a least width. -/
namespace Chip8

/-- The digits of `n` in base sixteen, `A` to `F` above nine, with zeros in front up to `width`
digits; a numeral that is longer already stands in full. -/
def hexDigits (width n : Nat) : List Char :=
  ((Nat.toDigits 16 n).map Char.toUpper).leftpad width '0'

def hex (width n : Nat) : String := String.ofList (hexDigits width n)

@[simp] theorem toList_hex (width n : Nat) : (hex width n).toList = hexDigits width n := by
  simp [hex]

theorem width_le_length_hexDigits (width n : Nat) : width ≤ (hexDigits width n).length := by
  simp only [hexDigits, List.leftpad, List.length_append, List.length_replicate]
  omega

example : hex 3 0x1A = "01A" := by decide
example : hex 1 0xF0 = "F0" := by decide

end Chip8
