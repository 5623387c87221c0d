import Chip8.Proofs.Display.Stamps
import Chip8.Proofs.History
import Mathlib.Data.List.FinRange
import Mathlib.Logic.ExistsUnique

/-! Which pictures there are, and which of them can be drawn. After any painting and clearing a pixel is
lit if it was covered an odd number of times since the display was last cleared, so painting one dot on
each of some pixels lights these and no others. A picture holds nothing besides its pixels: whichever of
them are to be lit, there is exactly one such picture, and it can be drawn. A history lists the changes
made to the display, the latest first. -/
namespace Chip8

theorem Sprite.coverage_leftmost (x y c r : Nat) :
    coverage [0x80] x y c r = if c % 64 = x % 64 ∧ r % 32 = y % 32 then 1 else 0 := by
  have hlt := offset_lt x c
  have hadd := add_offset_mod x c
  have ho : offset x c = 0 ↔ c % 64 = x % 64 := by omega
  have hrest : coverage [] x (y+1) c r = 0 := rfl
  rw [coverage_cons, hrest, covers, lit_leftmost]
  by_cases hc : c % 64 = x % 64 <;> by_cases hr : r % 32 = y % 32 <;> simp [ho, hc, hr]

namespace Stamp

/-- A single lit pixel. -/
def dot (p : Fin 64 × Fin 32) : Stamp := ⟨UInt8.ofNat p.1,UInt8.ofNat p.2,[0x80]⟩

theorem coverage_dot (p q : Fin 64 × Fin 32) :
    (dot p).coverage q.1 q.2 = if p = q then 1 else 0 := by
  obtain ⟨⟨x,hx⟩,⟨y,hy⟩⟩ := p
  obtain ⟨⟨c,hc⟩,⟨r,hr⟩⟩ := q
  have hcol : (UInt8.ofNat x).toNat = x := UInt8.toNat_ofNat_of_lt' (show x < 256 by omega)
  have hrow : (UInt8.ofNat y).toNat = y := UInt8.toNat_ofNat_of_lt' (show y < 256 by omega)
  change Sprite.coverage [0x80] (UInt8.ofNat x).toNat (UInt8.ofNat y).toNat c r = _
  rw [hcol, hrow, Sprite.coverage_leftmost, Nat.mod_eq_of_lt hx, Nat.mod_eq_of_lt hy,
    Nat.mod_eq_of_lt hc, Nat.mod_eq_of_lt hr]
  simp only [Prod.mk.injEq, Fin.mk.injEq, eq_comm]

end Stamp

namespace Display

inductive Change where
  | paint (s : Stamp)
  | clear
  deriving DecidableEq, Repr

def change (d : Display) : Change → Display
  | .paint s => (d.stamp s).display
  | .clear => d.clear

def after (d : Display) (past : List Change) : Display := History.after change d past

theorem after_cons (d : Display) (e : Change) (past : List Change) :
    d.after (e :: past) = (d.after past).change e := rfl

namespace Change

/-- How many rows of the sprites that were painted since the last clearing cover a pixel. -/
def coverage (c r : Nat) : List Change → Nat
  | [] => 0
  | .paint s :: past => s.coverage c r + coverage c r past
  | .clear :: _ => 0

/-- The pixels that a grid has lit, each painted as a dot. -/
def dots (grid : Fin 64 → Fin 32 → Bool) : List Change :=
  (((List.finRange 64).product (List.finRange 32)).filter fun p => grid p.1 p.2).map
    fun p => .paint (.dot p)

theorem coverage_map_dot (l : List (Fin 64 × Fin 32)) (p : Fin 64 × Fin 32) :
    coverage p.1 p.2 (l.map fun q => .paint (.dot q)) = l.count p := by
  induction l with
  | nil => rfl
  | cons q rest ih =>
    rw [List.map_cons, coverage, Stamp.coverage_dot, ih, List.count_cons, Nat.add_comm]
    simp only [beq_iff_eq]

theorem coverage_dots (grid : Fin 64 → Fin 32 → Bool) (c : Fin 64) (r : Fin 32) :
    coverage c r (dots grid) = (grid c r).toNat := by
  have hnodup : ((List.finRange 64).product (List.finRange 32)).Nodup :=
    (List.nodup_finRange 64).product (List.nodup_finRange 32)
  have hmem : (c,r) ∈ (List.finRange 64).product (List.finRange 32) :=
    List.pair_mem_product.mpr ⟨List.mem_finRange c,List.mem_finRange r⟩
  rw [dots, coverage_map_dot _ (c,r), (hnodup.filter _).count]
  simp only [List.mem_filter, hmem, true_and]
  cases grid c r <;> rfl

end Change

/-- On a display that started blank a pixel is lit if it was covered an odd number of times since the
last clearing. -/
theorem pixel_after (past : List Change) (c r : Nat) :
    (blank.after past).frame.pixel c r = decide (Change.coverage c r past % 2 = 1) := by
  induction past with
  | nil => exact Frame.pixel_blank c r
  | cons e past ih =>
    cases e with
    | paint s =>
      have hpaint : ((blank.after past).stamp s).display.frame.pixel c r =
          ((blank.after past).frame.pixel c r ^^ decide (s.coverage c r % 2 = 1)) :=
        (toggles_paint (blank.after past) s.x s.y s.sprite).pixel c r
      rw [after_cons, change, hpaint, ih, Change.coverage, decide_odd_add, Bool.xor_comm]
    | clear => exact Frame.pixel_blank c r

theorem pixel_after_dots (grid : Fin 64 → Fin 32 → Bool) (c : Fin 64) (r : Fin 32) :
    (blank.after (Change.dots grid)).frame.pixel c r = grid c r := by
  rw [pixel_after, Change.coverage_dots, decide_odd_toNat]

/-- Whichever pixels are to be lit, exactly one picture has just these lit. -/
theorem existsUnique_frame (grid : Fin 64 → Fin 32 → Bool) :
    ∃! f : Frame, ∀ (c : Fin 64) (r : Fin 32), f.pixel c r = grid c r := by
  refine ⟨(blank.after (Change.dots grid)).frame,pixel_after_dots grid,?_⟩
  intro f h
  refine Frame.ext_pixel fun c hc r hr => ?_
  rw [h ⟨c,hc⟩ ⟨r,hr⟩, pixel_after_dots grid ⟨c,hc⟩ ⟨r,hr⟩]

/-- Every picture can be drawn. -/
theorem exists_after_eq (f : Frame) : ∃ past, (blank.after past).frame = f := by
  let grid (c : Fin 64) (r : Fin 32) := f.pixel c r
  exact ⟨Change.dots grid,Frame.ext_pixel fun c hc r hr => pixel_after_dots grid ⟨c,hc⟩ ⟨r,hr⟩⟩

/-- The pixels of a picture say all about it. Two displays, whatever was painted on them and cleared,
show the same picture if and only if the same pixels are lit, and the picture is blank if and only if
none is. Whichever of the 64 by 32 pixels are to be lit, exactly one picture has just these lit, and every
picture can be drawn. Columns and rows go round, and a pixel is one bit of its byte, the highest one if it
is the leftmost of the eight. -/
theorem pixels_determine_frame :
    (∀ past past' : List Change,
      (blank.after past).frame = (blank.after past').frame ↔
        ∀ c < 64, ∀ r < 32,
          (blank.after past).frame.pixel c r = (blank.after past').frame.pixel c r) ∧
    (∀ past : List Change,
      (blank.after past).frame.isBlank = true ↔
        ∀ c < 64, ∀ r < 32, (blank.after past).frame.pixel c r = false) ∧
    (∀ grid : Fin 64 → Fin 32 → Bool,
      ∃! f : Frame, ∀ (c : Fin 64) (r : Fin 32), f.pixel c r = grid c r) ∧
    (∀ f : Frame, ∃ past : List Change, (blank.after past).frame = f) ∧
    ∀ (f : Frame) (c r : Nat),
      f.pixel c r = f.pixel (c % 64) (r % 32) ∧
      f.pixel c r = (f.byte (r % 32) (c % 64 / 8) &&& 0x80 >>> UInt8.ofNat (c % 8) != 0) := by
  refine ⟨?_,fun past => Frame.isBlank_iff _,existsUnique_frame,exists_after_eq,?_⟩
  · intro past past'
    constructor
    · intro h c _ r _
      rw [h]
    · exact Frame.ext_pixel
  · intro f c r
    exact ⟨(f.pixel_mod c r).symm,f.pixel_eq_mask c r⟩

end Display
end Chip8
