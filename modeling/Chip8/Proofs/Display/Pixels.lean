import Chip8.Display.Basic

/-! Pictures pixel by pixel. A byte of a picture is known by which of its eight pixels are lit, and a
picture by which of its 64 by 32 are. -/
namespace Chip8

/-- Whether a row of eight pixels has the one at `offset` lit, the highest bit being the leftmost. -/
def lit (bits : UInt8) (offset : Nat) : Bool := decide (offset < 8) && bits.toNat.testBit (7 - offset)

theorem getMsbD_toBitVec (bits : UInt8) (offset : Nat) :
    bits.toBitVec.getMsbD offset = lit bits offset := by
  rw [lit, BitVec.getMsbD_eq_getLsbD, ← BitVec.testBit_toNat, UInt8.toNat_toBitVec]

theorem lit_of_le (bits : UInt8) {offset : Nat} (h : 8 ≤ offset) : lit bits offset = false := by
  simp [lit, Nat.not_lt.mpr h]

@[simp] theorem lit_zero (offset : Nat) : lit 0 offset = false := by simp [lit]

theorem lit_leftmost (offset : Nat) : lit 0x80 offset = decide (offset = 0) := by
  by_cases h : offset < 8
  · have hall : ∀ o < 8, lit 0x80 o = decide (o = 0) := by decide
    exact hall offset h
  · have h := Nat.le_of_not_lt h
    rw [lit_of_le _ h, decide_eq_false (by omega)]

theorem lit_xor (a b : UInt8) (offset : Nat) :
    lit (a ^^^ b) offset = (lit a offset ^^ lit b offset) := by
  simp only [← getMsbD_toBitVec, UInt8.toBitVec_xor, BitVec.getMsbD_xor]

theorem lit_and (a b : UInt8) (offset : Nat) :
    lit (a &&& b) offset = (lit a offset && lit b offset) := by
  simp only [← getMsbD_toBitVec, UInt8.toBitVec_and, BitVec.getMsbD_and]

theorem toNat_shiftAmount {s : Nat} (h : s < 8) : ((UInt8.ofNat s).toBitVec % 8).toNat = s := by
  simp only [BitVec.toNat_umod, UInt8.toNat_toBitVec, UInt8.toNat_ofNat']
  change s % 256 % 8 = s
  omega

theorem lit_shiftRight (bits : UInt8) {s : Nat} (h : s < 8) (offset : Nat) :
    lit (bits >>> UInt8.ofNat s) offset =
      (decide (offset < 8) && (!decide (offset < s) && lit bits (offset - s))) := by
  rw [← getMsbD_toBitVec, UInt8.toBitVec_shiftRight, BitVec.ushiftRight_eq', toNat_shiftAmount h,
    BitVec.getMsbD_ushiftRight, getMsbD_toBitVec]

theorem lit_shiftLeft (bits : UInt8) {s : Nat} (h : s < 8) (offset : Nat) :
    lit (bits <<< UInt8.ofNat s) offset = lit bits (offset + s) := by
  rw [← getMsbD_toBitVec, UInt8.toBitVec_shiftLeft, BitVec.shiftLeft_eq', toNat_shiftAmount h,
    BitVec.getMsbD_shiftLeft, getMsbD_toBitVec]

theorem eq_of_lit {a b : UInt8} (h : ∀ offset < 8, lit a offset = lit b offset) : a = b := by
  rw [UInt8.eq_iff_toBitVec_eq]
  refine BitVec.eq_of_getMsbD_eq fun offset ho => ?_
  rw [getMsbD_toBitVec, getMsbD_toBitVec, h offset ho]

theorem ne_zero_iff_exists_lit (bits : UInt8) : bits ≠ 0 ↔ ∃ offset < 8, lit bits offset = true := by
  constructor
  · intro h
    refine Classical.byContradiction fun hn => h (eq_of_lit fun offset ho => ?_)
    rw [lit_zero]
    exact Bool.not_eq_true _ ▸ fun hl => hn ⟨offset,ho,hl⟩
  · rintro ⟨offset,-,hl⟩ rfl
    rw [lit_zero] at hl
    cases hl

/-- The leftmost pixel, moved to `offset`, is the mask that picks out the pixel there. -/
theorem lit_eq_mask (bits : UInt8) {offset : Nat} (h : offset < 8) :
    lit bits offset = (bits &&& 0x80 >>> UInt8.ofNat offset != 0) := by
  have hmask (o : Nat) (ho : o < 8) :
      lit (0x80 >>> UInt8.ofNat offset) o = decide (o = offset) := by
    rw [lit_shiftRight _ h, lit_leftmost, Bool.eq_iff_iff]
    simp only [Bool.and_eq_true, Bool.not_eq_true', decide_eq_true_eq, decide_eq_false_iff_not]
    omega
  rw [Bool.eq_iff_iff, bne_iff_ne, ne_zero_iff_exists_lit]
  simp only [lit_and, Bool.and_eq_true]
  constructor
  · intro hl
    exact ⟨offset,h,hl,by rw [hmask offset h, decide_eq_true rfl]⟩
  · rintro ⟨o,ho,hl,hm⟩
    rw [hmask o ho, decide_eq_true_eq] at hm
    rwa [← hm]

namespace Frame

theorem pixel_eq_lit (f : Frame) (col row : Nat) :
    f.pixel col row = lit (f.byte row (col / 8)) (col % 8) := getMsbD_toBitVec _ _

theorem byte_congr (f : Frame) {row row' group group' : Nat} (hr : row % 32 = row' % 32)
    (hg : group % 8 = group' % 8) : f.byte row group = f.byte row' group' := by
  rw [← byte_mod, hr, hg, byte_mod]

theorem pixel_mod (f : Frame) (col row : Nat) :
    f.pixel (col % 64) (row % 32) = f.pixel col row := by
  have hg : col % 64 / 8 = col / 8 % 8 := by omega
  have ho : col % 64 % 8 = col % 8 := by omega
  rw [pixel_eq_lit, hg, ho, byte_mod, pixel_eq_lit]

/-- Column and row are brought into the picture before the byte is looked up and the bit in it. -/
theorem pixel_eq_mask (f : Frame) (col row : Nat) :
    f.pixel col row =
      (f.byte (row % 32) (col % 64 / 8) &&& 0x80 >>> UInt8.ofNat (col % 8) != 0) := by
  have hg : col % 64 / 8 = col / 8 % 8 := by omega
  rw [pixel_eq_lit, lit_eq_mask _ (Nat.mod_lt col (by decide)), hg, byte_mod]

@[simp] theorem pixel_blank (col row : Nat) : blank.pixel col row = false := by
  rw [pixel_eq_lit, byte_blank, lit_zero]

/-- The pixels of a byte are eight in a row. -/
theorem lit_byte (f : Frame) (row group : Nat) {offset : Nat} (h : offset < 8) :
    lit (f.byte row group) offset = f.pixel (8*group + offset) row := by
  have hg : (8*group + offset) / 8 = group := by omega
  have ho : (8*group + offset) % 8 = offset := by omega
  rw [pixel_eq_lit, hg, ho]

/-- Two pictures are equal if their pixels are. -/
theorem ext_pixel {f g : Frame} (h : ∀ c < 64, ∀ r < 32, f.pixel c r = g.pixel c r) : f = g := by
  refine Frame.ext fun row group => eq_of_lit fun offset ho => ?_
  have hp := h ((8*group + offset) % 64) (Nat.mod_lt _ (by decide)) (row % 32)
    (Nat.mod_lt _ (by decide))
  rwa [pixel_mod, pixel_mod, ← lit_byte f row group ho, ← lit_byte g row group ho] at hp

theorem isBlank_iff_eq_blank (f : Frame) : f.isBlank = true ↔ f = blank := by
  constructor
  · intro h
    simp only [isBlank, Vector.all_eq_true, beq_iff_eq] at h
    refine Frame.ext fun row group => ?_
    rw [byte_blank]
    exact h (row % 32) _ (group % 8) _
  · rintro rfl
    simp [isBlank, blank]

theorem isBlank_iff (f : Frame) : f.isBlank = true ↔ ∀ c < 64, ∀ r < 32, f.pixel c r = false := by
  rw [isBlank_iff_eq_blank]
  constructor
  · rintro rfl c _ r _
    exact pixel_blank c r
  · intro h
    refine ext_pixel fun c hc r hr => ?_
    rw [h c hc r hr, pixel_blank]

theorem pixel_setByte (f : Frame) (row group : Nat) (b : UInt8) (c r : Nat) :
    (f.setByte row group b).pixel c r =
      if row % 32 = r % 32 ∧ group % 8 = c / 8 % 8 then lit b (c % 8) else f.pixel c r := by
  rw [pixel_eq_lit, pixel_eq_lit, byte_setByte, apply_ite (lit · (c % 8))]

end Frame

end Chip8
