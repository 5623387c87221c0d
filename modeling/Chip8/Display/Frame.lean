/-! Pictures of 64 by 32 pixels, packed eight pixels to a byte. Rows and columns wrap around, so the
picture is a torus. -/
namespace Chip8

/-- A picture: 32 rows of eight bytes, the highest bit of a byte being its leftmost pixel. -/
structure Frame where
  rows : Vector (Vector UInt8 8) 32
  deriving DecidableEq

namespace Frame

def blank : Frame := ⟨Vector.replicate 32 (Vector.replicate 8 0)⟩

/-- The byte in a group of eight columns, rows and groups wrapping around. -/
def byte (f : Frame) (row group : Nat) : UInt8 := f.rows[row % 32][group % 8]

def setByte (f : Frame) (row group : Nat) (b : UInt8) : Frame :=
  ⟨f.rows.set (row % 32) (f.rows[row % 32].set (group % 8) b)⟩

/-- Whether a pixel is lit, columns and rows wrapping around. -/
def pixel (f : Frame) (col row : Nat) : Bool := (f.byte row (col / 8)).toBitVec.getMsbD (col % 8)

def isBlank (f : Frame) : Bool := f.rows.all fun r => r.all (· == 0)

def toLists (f : Frame) : List (List UInt8) := f.rows.toList.map Vector.toList

@[simp] theorem byte_blank (row group : Nat) : blank.byte row group = 0 := by simp [byte, blank]

theorem byte_setByte (f : Frame) (row group row' group' : Nat) (b : UInt8) :
    (f.setByte row group b).byte row' group' =
      if row % 32 = row' % 32 ∧ group % 8 = group' % 8 then b else f.byte row' group' := by
  by_cases h : row % 32 = row' % 32 <;> simp [byte, setByte, Vector.getElem_set, h]

theorem byte_mod (f : Frame) (row group : Nat) :
    f.byte (row % 32) (group % 8) = f.byte row group := by
  simp [byte]

@[ext] theorem ext {f g : Frame} (h : ∀ row group, f.byte row group = g.byte row group) : f = g := by
  obtain ⟨f⟩ := f
  obtain ⟨g⟩ := g
  congr 1
  refine Vector.ext fun i hi => Vector.ext fun j hj => ?_
  simpa [byte, Nat.mod_eq_of_lt hi, Nat.mod_eq_of_lt hj] using h i j

end Frame
end Chip8
