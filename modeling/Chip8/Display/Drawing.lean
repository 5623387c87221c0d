import Chip8.Display.Frame

/-! Drawing by exclusive or. A sprite is a list of rows of eight pixels; drawing switches the pixels
under its lit pixels over and reports whether one of them was lit. -/
namespace Chip8

/-- A picture in the course of drawing, and whether a lit pixel has been in the way so far. -/
structure Drawing where
  frame : Frame
  collided : Bool
  deriving DecidableEq

namespace Drawing

def toggle (d : Drawing) (row group : Nat) (bits : UInt8) : Drawing :=
  let old := d.frame.byte row group
  ⟨d.frame.setByte row group (old ^^^ bits),d.collided || (old &&& bits) != 0⟩

/-- Draws eight pixels from column `x` on. They fill one byte when `x` is a multiple of eight, and
spread over two neighbouring bytes otherwise. -/
def row (d : Drawing) (x y : Nat) (bits : UInt8) : Drawing :=
  if x % 8 = 0 then d.toggle y (x / 8) bits
  else
    (d.toggle y (x / 8) (bits >>> UInt8.ofNat (x % 8))).toggle y (x / 8 + 1)
      (bits <<< UInt8.ofNat (8 - x % 8))

/-- Draws the rows of a sprite below one another, its top left corner at column `x` and row `y`. -/
def sprite (d : Drawing) (x y : Nat) : List UInt8 → Drawing
  | [] => d
  | bits :: rest => (d.row x y bits).sprite x (y+1) rest

end Drawing
end Chip8
