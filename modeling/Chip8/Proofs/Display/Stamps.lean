import Chip8.Proofs.Display.Painting

/-! Painting several sprites one after the other. Whether a single one collides depends on what was
painted before it, but the picture in the end and whether any of them collided depend only on how often
each pixel is covered in all, and so not on the order. -/
namespace Chip8

/-- A sprite and where its top left corner goes. -/
structure Stamp where
  x : UInt8
  y : UInt8
  sprite : List UInt8
  deriving DecidableEq, Repr

namespace Stamp

def coverage (s : Stamp) (c r : Nat) : Nat := Sprite.coverage s.sprite s.x.toNat s.y.toNat c r

/-- How many rows of any of the sprites cover a pixel. -/
def coverageAll (c r : Nat) : List Stamp → Nat
  | [] => 0
  | s :: rest => s.coverage c r + coverageAll c r rest

theorem coverageAll_perm {l l' : List Stamp} (h : l.Perm l') (c r : Nat) :
    coverageAll c r l = coverageAll c r l' := by
  induction h with
  | nil => rfl
  | cons s _ ih => rw [coverageAll, coverageAll, ih]
  | swap s t rest =>
    simp only [coverageAll]
    omega
  | trans _ _ ih ih' => exact ih.trans ih'

theorem coverageAll_twice (s : Stamp) (c r : Nat) :
    coverageAll c r [s,s] = 2 * s.coverage c r := by
  simp only [coverageAll]
  omega

end Stamp

namespace Drawing

/-- A collision from before stays a collision. -/
theorem Toggles.after_collision {f g : Frame} {b : Bool} {n : Nat → Nat → Nat}
    (h : Toggles ⟨f,false⟩ ⟨g,b⟩ n) (a : Bool) : Toggles ⟨f,a⟩ ⟨g,a || b⟩ n where
  pixel := h.pixel
  collided := by
    have hb := h.collided
    simp only [Bool.false_eq_true, false_or] at hb
    rw [Bool.or_eq_true, hb]

end Drawing

namespace Display

def stamp (d : Display) (s : Stamp) : Painted := d.paint s.x s.y s.sprite

def paintAll (d : Display) : List Stamp → Display
  | [] => d
  | s :: rest => (d.stamp s).display.paintAll rest

/-- Whether each of the sprites collided. -/
def collisions (d : Display) : List Stamp → List Bool
  | [] => []
  | s :: rest => (d.stamp s).collided :: (d.stamp s).display.collisions rest

theorem toggles_paintAll (d : Display) (l : List Stamp) :
    Drawing.Toggles ⟨d.frame,false⟩ ⟨(d.paintAll l).frame,(d.collisions l).any id⟩
      fun c r => Stamp.coverageAll c r l := by
  induction l generalizing d with
  | nil => exact Drawing.Toggles.refl _
  | cons s rest ih =>
    have hfirst : Drawing.Toggles ⟨d.frame,false⟩
        ⟨(d.stamp s).display.frame,(d.stamp s).collided⟩ s.coverage :=
      toggles_paint d s.x s.y s.sprite
    exact hfirst.trans ((ih (d.stamp s).display).after_collision _)

theorem mem_collisions_iff (d : Display) (l : List Stamp) :
    true ∈ d.collisions l ↔
      ∃ c < 64, ∃ r < 32, FoundLit (d.frame.pixel c r) (Stamp.coverageAll c r l) := by
  have h := (toggles_paintAll d l).collided
  simpa using h

theorem dirty_paintAll (d : Display) (l : List Stamp) :
    (d.paintAll l).dirty = (d.dirty || !l.isEmpty) := by
  induction l generalizing d with
  | nil => exact (Bool.or_false _).symm
  | cons s rest ih =>
    rw [paintAll, ih, stamp, dirty_paint]
    simp

theorem eq_of_frame_of_dirty {d e : Display} (hf : d.frame = e.frame) (hd : d.dirty = e.dirty) :
    d = e := by
  cases d
  cases e
  cases hf
  cases hd
  rfl

theorem paintAll_eq_of_perm (d : Display) {l l' : List Stamp} (h : l.Perm l') :
    d.paintAll l = d.paintAll l' := by
  refine eq_of_frame_of_dirty (Frame.ext_pixel fun c _ r _ => ?_) ?_
  · rw [(toggles_paintAll d l).pixel, (toggles_paintAll d l').pixel, Stamp.coverageAll_perm h]
  · rw [dirty_paintAll, dirty_paintAll, h.isEmpty_eq]

theorem frame_paintAll_twice (d : Display) (s : Stamp) : (d.paintAll [s,s]).frame = d.frame := by
  refine Frame.ext_pixel fun c _ r _ => ?_
  rw [(toggles_paintAll d [s,s]).pixel, Stamp.coverageAll_twice]
  simp

theorem mem_collisions_twice_iff (d : Display) (s : Stamp) :
    true ∈ d.collisions [s,s] ↔ ∃ b ∈ s.sprite, b ≠ 0 := by
  simp only [mem_collisions_iff, Stamp.coverageAll_twice, foundLit_two_mul]
  exact Sprite.exists_covered_iff s.sprite s.x.toNat s.y.toNat

/-- The order in which sprites are painted plays no part in the display that results, nor in whether one
of them collided. Painting a sprite twice in one place brings the picture back, and one of the two times
collides exactly if the sprite has a lit pixel at all. -/
theorem paintAll_perm (d : Display) :
    (∀ l l' : List Stamp, l.Perm l' →
      d.paintAll l = d.paintAll l' ∧ (true ∈ d.collisions l ↔ true ∈ d.collisions l')) ∧
    ∀ s : Stamp,
      (d.paintAll [s,s]).frame = d.frame ∧
      (true ∈ d.collisions [s,s] ↔ ∃ b ∈ s.sprite, b ≠ 0) := by
  refine ⟨?_,?_⟩
  · intro l l' h
    refine ⟨paintAll_eq_of_perm d h,?_⟩
    simp only [mem_collisions_iff, Stamp.coverageAll_perm h]
  · intro s
    exact ⟨frame_paintAll_twice d s,mem_collisions_twice_iff d s⟩

/-- Of two sprites that overlap beside a lit pixel, the smaller one collides only if it comes second. -/
theorem paintAll_perm_of_overlap :
    let d := (blank.paint 0 0 [0x80]).display
    let s : Stamp := ⟨0,0,[0xC0]⟩
    let t : Stamp := ⟨1,0,[0x80]⟩
    d.collisions [s,t] = [true,true] ∧ d.collisions [t,s] = [false,true] ∧
    d.paintAll [s,t] = d.paintAll [t,s] := by
  intro d s t
  have h : d.collisions [s,t] = [true,true] ∧ d.collisions [t,s] = [false,true] := by decide +kernel
  exact ⟨h.1,h.2,((paintAll_perm d).1 [s,t] [t,s] (List.Perm.swap t s [])).1⟩

end Display
end Chip8
