import Chip8.Proofs.Display.Drawing

/-! What painting a sprite does to a display, told pixel by pixel, and when it counts as a collision. -/
namespace Chip8

namespace Display

theorem toggles_paint (d : Display) (x y : UInt8) (sprite : List UInt8) :
    Drawing.Toggles ⟨d.frame,false⟩
      ⟨(d.paint x y sprite).display.frame,(d.paint x y sprite).collided⟩
      (Sprite.coverage sprite x.toNat y.toNat) :=
  Drawing.toggles_sprite ⟨d.frame,false⟩ x.toNat y.toNat sprite

theorem collided_paint_iff (d : Display) (x y : UInt8) (sprite : List UInt8) :
    (d.paint x y sprite).collided = true ↔
      ∃ c < 64, ∃ r < 32,
        FoundLit (d.frame.pixel c r) (Sprite.coverage sprite x.toNat y.toNat c r) := by
  rw [(toggles_paint d x y sprite).collided]
  simp

/-- A sprite of at most 32 rows collides exactly if it switches some pixel off. -/
theorem collided_paint_iff_erased (d : Display) (x y : UInt8) {sprite : List UInt8}
    (h : sprite.length ≤ 32) :
    (d.paint x y sprite).collided = true ↔
      ∃ c < 64, ∃ r < 32, d.frame.pixel c r = true ∧
        (d.paint x y sprite).display.frame.pixel c r = false := by
  rw [collided_paint_iff]
  simp only [(toggles_paint d x y sprite).pixel,
    foundLit_iff_of_le_one _ (Sprite.coverage_le_one h x.toNat y.toNat _ _)]

/-- Painting switches every pixel over once for each row of the sprite that covers it, rows and columns
going round, wherever the origin lies in its byte. It reports a collision exactly if a lit pixel is
covered or some pixel is covered twice; with at most 32 rows that is to say that a pixel is switched
off. The display always counts as changed. -/
theorem paint_switches_covered (d : Display) (x y : UInt8) (sprite : List UInt8) :
    let times := Sprite.coverage sprite x.toNat y.toNat
    let painted := d.paint x y sprite
    (∀ c r, painted.display.frame.pixel c r =
      (d.frame.pixel c r ^^ decide (times c r % 2 = 1))) ∧
    (painted.collided = true ↔
      ∃ c < 64, ∃ r < 32, d.frame.pixel c r = true ∧ 0 < times c r ∨ 2 ≤ times c r) ∧
    (sprite.length ≤ 32 → (painted.collided = true ↔
      ∃ c < 64, ∃ r < 32, d.frame.pixel c r = true ∧ painted.display.frame.pixel c r = false)) ∧
    painted.display.dirty = true :=
  ⟨(toggles_paint d x y sprite).pixel,collided_paint_iff d x y sprite,
    collided_paint_iff_erased d x y,dirty_paint d x y sprite⟩

/-- Two rows that go round the lower right corner switch off the one lit pixel, in the upper left one. -/
theorem paint_switches_covered_around_corner :
    let d := (blank.paint 0 0 [0x80]).display
    let painted := d.paint 62 31 [0xFF,0x20]
    painted.display.frame.pixel 0 0 = false ∧ painted.collided = true := by
  intro d painted
  have h : d.frame.pixel 0 0 = true ∧ Sprite.coverage [0xFF,0x20] 62 31 0 0 = 1 := by decide +kernel
  obtain ⟨hlit,hcov⟩ := h
  obtain ⟨hpixel,-,herased,-⟩ := paint_switches_covered d 62 31 [0xFF,0x20]
  have hoff : painted.display.frame.pixel 0 0 = false := by
    rw [hpixel 0 0, hlit]
    change (true ^^ decide (Sprite.coverage [0xFF,0x20] 62 31 0 0 % 2 = 1)) = false
    rw [hcov]
    rfl
  exact ⟨hoff,(herased (by decide)).mpr ⟨0,by decide,0,by decide,hlit,hoff⟩⟩

end Display
end Chip8
