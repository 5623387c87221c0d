import Chip8.Display.Drawing

/-! The display: a picture, and whether it has changed since it was last handed over. -/
namespace Chip8

/-- The picture on show; `dirty` is set by every change and cleared when the picture is taken. -/
structure Display where
  frame : Frame
  dirty : Bool
  deriving DecidableEq

namespace Display

def blank : Display := ⟨Frame.blank,false⟩

/-- Switches every pixel off, which counts as a change whatever the picture was. -/
def clear (_ : Display) : Display := ⟨Frame.blank,true⟩

/-- A display after a sprite was painted on it, and whether a lit pixel was in the way. -/
structure Painted where
  display : Display
  collided : Bool
  deriving DecidableEq

/-- Draws a sprite with its top left corner at column `x` and row `y`, which counts as a change even
if no pixel is switched over. -/
def paint (d : Display) (x y : UInt8) (sprite : List UInt8) : Painted :=
  let drawn := Drawing.sprite ⟨d.frame,false⟩ x.toNat y.toNat sprite
  ⟨⟨drawn.frame,true⟩,drawn.collided⟩

def markDirty (d : Display) : Display := { d with dirty := true }

def markClean (d : Display) : Display := { d with dirty := false }

@[simp] theorem dirty_paint (d : Display) (x y : UInt8) (sprite : List UInt8) :
    (d.paint x y sprite).display.dirty = true := rfl

@[simp] theorem frame_markDirty (d : Display) : d.markDirty.frame = d.frame := rfl

@[simp] theorem frame_markClean (d : Display) : d.markClean.frame = d.frame := rfl

end Display
end Chip8
