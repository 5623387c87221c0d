import Chip8.Proofs.Display.Pixels

/-! Drawing pixel by pixel. It goes over a pixel once for each row of the sprite that has a lit pixel
there, whether the row fills one byte of the picture or spreads over two. Each time the pixel is switched
over, and a collision is one of those times finding it lit. -/
namespace Chip8

namespace Sprite

/-- How far column `c` lies to the right of column `x`, going round. -/
def offset (x c : Nat) : Nat := ((c - x : Int) % 64).toNat

/-- Whether eight pixels, drawn in row `y` from column `x` on, have a lit one at column `c` of row `r`. -/
def covers (bits : UInt8) (x y c r : Nat) : Bool :=
  decide (r % 32 = y % 32) && lit bits (offset x c)

/-- How many rows of a sprite have a lit pixel at column `c` of row `r`, the first of them being drawn in
row `y`, the next in row `y+1`, and so on. -/
def coverage (sprite : List UInt8) (x y c r : Nat) : Nat :=
  (sprite.zipIdx y).countP fun b => covers b.1 x b.2 c r

/-- Whether eight pixels that fill one byte of the picture have a lit one at column `c` of row `r`. -/
def fills (bits : UInt8) (row group c r : Nat) : Bool :=
  decide (r % 32 = row % 32 ∧ c / 8 % 8 = group % 8) && lit bits (c % 8)

theorem offset_lt (x c : Nat) : offset x c < 64 := by
  rw [offset]
  omega

theorem add_offset_mod (x c : Nat) : (x + offset x c) % 64 = c % 64 := by
  rw [offset]
  omega

theorem coverage_cons (bits : UInt8) (rest : List UInt8) (x y c r : Nat) :
    coverage (bits :: rest) x y c r = (covers bits x y c r).toNat + coverage rest x (y+1) c r := by
  rw [coverage, List.zipIdx_cons, List.countP_cons, coverage, Nat.add_comm]
  cases covers bits x y c r <;> rfl

theorem coverage_pos_iff (sprite : List UInt8) (x y c r : Nat) :
    0 < coverage sprite x y c r ↔ ∃ k b, sprite[k]? = some b ∧ covers b x (y+k) c r = true := by
  simp only [coverage, List.countP_pos_iff]
  constructor
  · rintro ⟨⟨b,row⟩,hb,hcov⟩
    obtain ⟨hle,hget⟩ := List.mk_mem_zipIdx_iff_le_and_getElem?_sub.mp hb
    refine ⟨row - y,b,hget,?_⟩
    rwa [Nat.add_sub_cancel' hle]
  · rintro ⟨k,b,hget,hcov⟩
    exact ⟨(b,y+k),List.mk_add_mem_zipIdx_iff_getElem?.mpr hget,hcov⟩

/-- In a sprite of at most 32 rows no two rows cover the same pixel. -/
theorem coverage_le_one {sprite : List UInt8} (h : sprite.length ≤ 32) (x y c r : Nat) :
    coverage sprite x y c r ≤ 1 := by
  -- the only one of the 32 rows from `y` on that goes round to row `r`
  let row := y + (r + 31*y) % 32
  calc
    coverage sprite x y c r ≤ (sprite.zipIdx y).countP fun b => b.2 == row := by
      refine List.countP_mono_left fun b hb hcov => ?_
      have hrows : b.2 ∈ List.range' y sprite.length := by
        rw [← List.zipIdx_map_snd]
        exact List.mem_map_of_mem hb
      rw [List.mem_range'_1] at hrows
      simp only [covers, Bool.and_eq_true, decide_eq_true_eq] at hcov
      rw [beq_iff_eq]
      omega
    _ = (List.range' y sprite.length).count row := by
      rw [← List.zipIdx_map_snd, List.count_eq_countP, List.countP_map]
      rfl
    _ ≤ 1 := by
      rw [(List.nodup_range' 1).count]
      split <;> omega

/-- A sprite covers some pixel unless all of its rows are empty. -/
theorem exists_covered_iff (sprite : List UInt8) (x y : Nat) :
    (∃ c < 64, ∃ r < 32, 0 < coverage sprite x y c r) ↔ ∃ b ∈ sprite, b ≠ 0 := by
  simp only [coverage_pos_iff]
  constructor
  · rintro ⟨c,-,r,-,k,b,hget,hcov⟩
    refine ⟨b,List.mem_of_getElem? hget,?_⟩
    rintro rfl
    rw [covers, lit_zero, Bool.and_false] at hcov
    cases hcov
  · rintro ⟨b,hb,hz⟩
    obtain ⟨k,hget⟩ := List.mem_iff_getElem?.mp hb
    obtain ⟨o,ho,hl⟩ := (ne_zero_iff_exists_lit b).mp hz
    have hoff : offset x ((x + o) % 64) = o := by
      have hlt := offset_lt x ((x + o) % 64)
      have hadd := add_offset_mod x ((x + o) % 64)
      omega
    refine ⟨(x + o) % 64,Nat.mod_lt _ (by decide),(y + k) % 32,Nat.mod_lt _ (by decide),k,b,hget,?_⟩
    simp [covers, hoff, hl]

theorem covers_of_aligned (bits : UInt8) {x : Nat} (h : x % 8 = 0) (y c r : Nat) :
    covers bits x y c r = fills bits y (x / 8) c r := by
  have hlt := offset_lt x c
  have hadd := add_offset_mod x c
  by_cases hg : c / 8 % 8 = x / 8 % 8
  · have ho : offset x c = c % 8 := by omega
    simp [covers, fills, hg, ho]
  · have ho : 8 ≤ offset x c := by omega
    simp [covers, fills, hg, lit_of_le bits ho]

/-- Eight pixels that do not fill a byte spread over two neighbouring ones, and no pixel of the picture
is in both. -/
theorem covers_of_unaligned (bits : UInt8) {x : Nat} (h : x % 8 ≠ 0) (y c r : Nat) :
    (covers bits x y c r).toNat =
      (fills (bits >>> UInt8.ofNat (x % 8)) y (x / 8) c r).toNat +
      (fills (bits <<< UInt8.ofNat (8 - x % 8)) y (x / 8 + 1) c r).toNat := by
  have hx : x % 8 < 8 := Nat.mod_lt _ (by decide)
  have hc : c % 8 < 8 := Nat.mod_lt _ (by decide)
  have hn : x / 8 % 8 ≠ (x / 8 + 1) % 8 := by omega
  have hlt := offset_lt x c
  have hadd := add_offset_mod x c
  simp only [covers, fills, lit_shiftRight bits hx, lit_shiftLeft bits (show 8 - x % 8 < 8 by omega)]
  -- The column is in the first byte, before or behind the origin, or in the second byte, or in neither.
  by_cases h1 : c / 8 % 8 = x / 8 % 8
  · by_cases hs : c % 8 < x % 8
    · have ho : 8 ≤ offset x c := by omega
      simp [h1, hn, hs, lit_of_le bits ho]
    · have ho : offset x c = c % 8 - x % 8 := by omega
      simp [h1, hn, hs, ho, hc]
  · by_cases h2 : c / 8 % 8 = (x / 8 + 1) % 8
    · have ho : offset x c = c % 8 + (8 - x % 8) := by omega
      simp [h2, hn.symm, ho]
    · have ho : 8 ≤ offset x c := by omega
      simp [h1, h2, lit_of_le bits ho]

end Sprite

theorem decide_odd_add (m n : Nat) :
    decide ((m+n) % 2 = 1) = (decide (m % 2 = 1) ^^ decide (n % 2 = 1)) := by
  obtain hm | hm := Nat.mod_two_eq_zero_or_one m <;>
    obtain hn | hn := Nat.mod_two_eq_zero_or_one n <;> simp [Nat.add_mod, hm, hn]

theorem decide_odd_toNat (b : Bool) : decide (b.toNat % 2 = 1) = b := by cases b <;> rfl

/-- Whether a pixel that is lit or not, and then switched over `n` times, is found lit at one of them. -/
def FoundLit (before : Bool) (n : Nat) : Prop := before = true ∧ 0 < n ∨ 2 ≤ n

/-- Switching a pixel over `m+n` times is doing it `m` times, and then `n` times more. -/
theorem foundLit_add (before : Bool) (m n : Nat) :
    FoundLit before (m+n) ↔ FoundLit before m ∨ FoundLit (before ^^ decide (m % 2 = 1)) n := by
  unfold FoundLit
  obtain rfl | rfl | hm : m = 0 ∨ m = 1 ∨ 2 ≤ m := by omega
  · simp
  · cases before with
    | false =>
      have hnow : (false ^^ decide (1 % 2 = 1)) = true := rfl
      rw [hnow]
      simp only [Bool.false_eq_true, false_and, false_or, true_and]
      omega
    | true =>
      constructor
      · exact fun _ => .inl (.inl ⟨rfl,Nat.one_pos⟩)
      · exact fun _ => .inl ⟨rfl,by omega⟩
  · constructor
    · exact fun _ => .inl (.inr hm)
    · exact fun _ => .inr (by omega)

theorem foundLit_toNat (before b : Bool) : FoundLit before b.toNat ↔ before = true ∧ b = true := by
  cases b <;> simp [FoundLit]

theorem foundLit_two_mul (before : Bool) (n : Nat) : FoundLit before (2*n) ↔ 0 < n := by
  unfold FoundLit
  omega

/-- A pixel that is switched over at most once is found lit if it was lit before and is not after. -/
theorem foundLit_iff_of_le_one (before : Bool) {n : Nat} (h : n ≤ 1) :
    FoundLit before n ↔ before = true ∧ (before ^^ decide (n % 2 = 1)) = false := by
  unfold FoundLit
  obtain rfl | rfl : n = 0 ∨ n = 1 := by omega
  · cases before <;> simp
  · simp

namespace Drawing

/-- The drawing `d'` is `d` after each pixel was switched over as often as `times` says. -/
structure Toggles (d d' : Drawing) (times : Nat → Nat → Nat) : Prop where
  pixel : ∀ c r, d'.frame.pixel c r = (d.frame.pixel c r ^^ decide (times c r % 2 = 1))
  collided : d'.collided = true ↔
    d.collided = true ∨ ∃ c < 64, ∃ r < 32, FoundLit (d.frame.pixel c r) (times c r)

theorem Toggles.refl (d : Drawing) : d.Toggles d fun _ _ => 0 where
  pixel := by simp
  collided := by simp [FoundLit]

theorem Toggles.trans {d d' d'' : Drawing} {m n : Nat → Nat → Nat} (h : d.Toggles d' m)
    (h' : d'.Toggles d'' n) : d.Toggles d'' fun c r => m c r + n c r where
  pixel c r := by rw [h'.pixel, h.pixel, Bool.xor_assoc, ← decide_odd_add]
  collided := by
    rw [h'.collided, h.collided, or_assoc]
    simp only [foundLit_add, h.pixel, and_or_left, exists_or]

theorem toggles_toggle (d : Drawing) (row group : Nat) (bits : UInt8) :
    d.Toggles (d.toggle row group bits) fun c r => (Sprite.fills bits row group c r).toNat where
  pixel c r := by
    change (d.frame.setByte row group _).pixel c r = _
    rw [Frame.pixel_setByte, decide_odd_toNat]
    by_cases h : row % 32 = r % 32 ∧ group % 8 = c / 8 % 8
    · rw [if_pos h, lit_xor, d.frame.byte_congr h.1 h.2, ← Frame.pixel_eq_lit]
      simp [Sprite.fills, h]
    · have hf : Sprite.fills bits row group c r = false := by
        simp only [Sprite.fills, eq_comm, h, decide_false, Bool.false_and]
      rw [if_neg h, hf, Bool.xor_false]
  collided := by
    simp only [toggle, Bool.or_eq_true, bne_iff_ne, ne_zero_iff_exists_lit, foundLit_toNat, lit_and,
      Bool.and_eq_true, Sprite.fills, decide_eq_true_eq]
    refine or_congr_right ⟨?_,?_⟩
    · rintro ⟨offset,ho,hp,hl⟩
      have hg : (8*group + offset) % 64 / 8 % 8 = group % 8 := by omega
      have hm : (8*group + offset) % 64 % 8 = offset := by omega
      rw [Frame.lit_byte _ _ _ ho, ← Frame.pixel_mod] at hp
      refine ⟨_,Nat.mod_lt _ (by decide),_,Nat.mod_lt _ (by decide),hp,⟨?_,hg⟩,?_⟩
      · rw [Nat.mod_mod]
      · rwa [hm]
    · rintro ⟨c,-,r,-,hp,⟨hr,hg⟩,hl⟩
      rw [Frame.pixel_eq_lit, d.frame.byte_congr hr hg] at hp
      exact ⟨c % 8,Nat.mod_lt _ (by decide),hp,hl⟩

theorem toggles_row (d : Drawing) (x y : Nat) (bits : UInt8) :
    d.Toggles (d.row x y bits) fun c r => (Sprite.covers bits x y c r).toNat := by
  by_cases h : x % 8 = 0
  · simp only [Sprite.covers_of_aligned bits h, row, h, if_true]
    exact toggles_toggle d y (x / 8) bits
  · simp only [Sprite.covers_of_unaligned bits h, row, h, if_false]
    exact (toggles_toggle d _ _ _).trans (toggles_toggle _ _ _ _)

theorem toggles_sprite (d : Drawing) (x y : Nat) (sprite : List UInt8) :
    d.Toggles (d.sprite x y sprite) (Sprite.coverage sprite x y) := by
  induction sprite generalizing d y with
  | nil => exact Toggles.refl d
  | cons bits rest ih =>
    have h := (toggles_row d x y bits).trans (ih (d.row x y bits) (y+1))
    simp only [← Sprite.coverage_cons] at h
    exact h

end Drawing

end Chip8
