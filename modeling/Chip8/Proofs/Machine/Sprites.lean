import Chip8.Proofs.Display.Stamps
import Chip8.Proofs.Instruction.Encoding
import Chip8.Proofs.Machine.Surroundings

/-! Drawing a sprite from memory. The rows of the sprite are read around the end of memory, the origin
is read before the flag is written, and the flag tells whether a pixel was switched off. -/
namespace Chip8

namespace Registers

theorem slot_ne_slot_flag {r : UInt8} (h : r.toNat < 16) (hr : r ≠ flag) : slot r ≠ slot flag := by
  intro hs
  apply hr
  have hv : r.toNat % 16 = 15 := congrArg Fin.val hs
  rw [← UInt8.toNat_inj]
  change r.toNat = 15
  omega

end Registers

theorem toUInt8_eq_one_iff (b : Bool) : b.toUInt8 = 1 ↔ b = true := by cases b <;> decide

namespace Machine
open Registers (slot flag slot_ne_slot_flag)

/-- The bytes from the one that the index register points at on, going round the end of memory. -/
def byteFromIndex (m : Machine) (k : Nat) : UInt8 := m.memory.cells[(m.index.toNat + k) % 4096]

/-- The sprite that an instruction of height `n` draws. -/
def sprite (m : Machine) (n : UInt8) : List UInt8 := m.memory.span m.index n.toNat

theorem length_sprite (m : Machine) (n : UInt8) : (m.sprite n).length = n.toNat := by
  have := n.toNat_lt
  rw [sprite, Memory.length_span, Nat.mod_eq_of_lt (by omega)]

theorem getElem?_sprite_eq_some (m : Machine) (n b : UInt8) (k : Nat) :
    (m.sprite n)[k]? = some b ↔ k < n.toNat ∧ m.byteFromIndex k = b := by
  have := n.toNat_lt
  rw [sprite, Memory.getElem?_span, Nat.mod_eq_of_lt (show n.toNat < 65536 by omega)]
  by_cases h : k < n.toNat <;> simp [h, byteFromIndex]

/-- A pixel is switched over by a sprite of at most 32 rows if one of the rows covers it. -/
theorem decide_odd_coverage (m : Machine) {n : UInt8} (hn : n.toNat ≤ 32) (x y c r : Nat) :
    decide (Sprite.coverage (m.sprite n) x y c r % 2 = 1) =
      (List.range n.toNat).any fun k => Sprite.covers (m.byteFromIndex k) x (y+k) c r := by
  have hle := Sprite.coverage_le_one (Nat.le_trans (Nat.le_of_eq (m.length_sprite n)) hn) x y c r
  have hodd : Sprite.coverage (m.sprite n) x y c r % 2 = 1 ↔
      0 < Sprite.coverage (m.sprite n) x y c r := by omega
  rw [Bool.eq_iff_iff, decide_eq_true_iff, hodd, Sprite.coverage_pos_iff]
  simp [getElem?_sprite_eq_some, and_assoc]

theorem exists_sprite_ne_zero (m : Machine) (n : UInt8) :
    (∃ b ∈ m.sprite n, b ≠ 0) ↔ ∃ k < n.toNat, m.byteFromIndex k ≠ 0 := by
  simp only [List.mem_iff_getElem?, getElem?_sprite_eq_some]
  constructor
  · rintro ⟨b,⟨k,hk,rfl⟩,hb⟩
    exact ⟨k,hk,hb⟩
  · rintro ⟨k,hk,hb⟩
    exact ⟨_,⟨k,hk,rfl⟩,hb⟩

/-- What an instruction of height `n` paints on the display. -/
def stamp (m : Machine) (x y n : UInt8) : Stamp :=
  ⟨m.registers.get x,m.registers.get y,m.sprite n⟩

section Twice
variable (m : Machine) {x y : UInt8} (n : UInt8) (hx : slot x ≠ slot flag) (hy : slot y ≠ slot flag)
  (pc : Address)
include hx hy

/-- Unless the flag is part of the origin, drawing does not change what is drawn. -/
theorem stamp_drawSprite : { m.drawSprite x y n with pc := pc }.stamp x y n = m.stamp x y n := by
  have hgetx : (m.drawSprite x y n).registers.get x = m.registers.get x :=
    Registers.get_set_of_ne _ _ (Ne.symm hx)
  have hgety : (m.drawSprite x y n).registers.get y = m.registers.get y :=
    Registers.get_set_of_ne _ _ (Ne.symm hy)
  change Stamp.mk ((m.drawSprite x y n).registers.get x) ((m.drawSprite x y n).registers.get y) _ = _
  rw [hgetx, hgety]
  rfl

theorem drawSprite_twice :
    let s := m.stamp x y n
    let first := m.drawSprite x y n
    let second := { first with pc := pc }.drawSprite x y n
    second.display = m.display.paintAll [s,s] ∧
    (first.registers.get flag = 1 ∨ second.registers.get flag = 1 ↔
      true ∈ m.display.collisions [s,s]) := by
  intro s first second
  have hstamp : { first with pc := pc }.stamp x y n = s := stamp_drawSprite m n hx hy pc
  have hfirst : first.registers.get flag = (m.display.stamp s).collided.toUInt8 :=
    Registers.get_set_self _ _ _
  have hsecond : second.registers.get flag = (first.display.stamp s).collided.toUInt8 := by
    rw [← hstamp]
    exact Registers.get_set_self _ _ _
  refine ⟨?_,?_⟩
  · change (first.display.stamp ({ first with pc := pc }.stamp x y n)).display = _
    rw [hstamp]
    rfl
  · rw [hfirst, hsecond, toUInt8_eq_one_iff, toUInt8_eq_one_iff]
    change _ ↔ true ∈ [(m.display.stamp s).collided,(first.display.stamp s).collided]
    rw [List.mem_cons, List.mem_singleton]
    exact or_congr eq_comm eq_comm

end Twice

/-- A decoded instruction names its registers by one digit. -/
theorem lt_of_instruction_draw {m : Machine} {x y n : UInt8} (hi : m.instruction = .draw x y n) :
    x.toNat < 16 ∧ y.toNat < 16 ∧ n.toNat < 16 := by
  have h := Instruction.encodes_decode m.word
  rw [← instruction, hi] at h
  exact ⟨h.1,h.2.1,h.2.2.1⟩

/-- A sprite of height `n`, its rows read from memory from the index register on, is drawn at the column
and row that `Vx` and `Vy` hold before the flag is written. Exactly the pixels that one of its rows
covers are switched over; the flag, and no other register, becomes one if some pixel was switched off and
zero if not. Unless the flag is part of the origin, executing the same instruction again, wherever the
program counter stands, brings the picture back, and one of the two times sets the flag exactly if
the sprite has a lit pixel at all. -/
theorem step_draw {m : Machine} {x y n : UInt8} (hi : m.instruction = .draw x y n) (keys : Keypad) :
    let X := (m.registers.get x).toNat
    let Y := (m.registers.get y).toNat
    let next := (m.step keys).machine
    (m.step keys).fault = none ∧
    (∀ c r, next.display.frame.pixel c r = (m.display.frame.pixel c r ^^
      (List.range n.toNat).any fun k => Sprite.covers (m.byteFromIndex k) X (Y+k) c r)) ∧
    (∃ erased : Bool, next.registers = m.registers.set flag erased.toUInt8 ∧
      (erased = true ↔ ∃ c < 64, ∃ r < 32,
        m.display.frame.pixel c r = true ∧ next.display.frame.pixel c r = false)) ∧
    next.memory = m.memory ∧ next.pc = m.pc + m.pcStep.bytes ∧
    (x ≠ flag → y ≠ flag → ∀ pc keys' addr,
      let again := { next with pc := pc }.execute keys' (.draw x y n) addr
      again.fault = none ∧ again.machine.display.frame = m.display.frame ∧
      (next.registers.get flag = 1 ∨ again.machine.registers.get flag = 1 ↔
        ∃ k < n.toNat, m.byteFromIndex k ≠ 0)) := by
  intro X Y next
  obtain ⟨hx16,hy16,hn16⟩ := lt_of_instruction_draw hi
  have hstep : m.step keys = Outcome.ok (m.advance.drawSprite x y n) := step_of_instruction hi keys
  have hnext : next = m.advance.drawSprite x y n := congrArg Outcome.machine hstep
  -- Having moved past the instruction changes neither the origin nor the sprite.
  have hdisplay : next.display = (m.display.stamp (m.stamp x y n)).display :=
    congrArg Machine.display hnext
  refine ⟨congrArg Outcome.fault hstep,?_,⟨_,congrArg Machine.registers hnext,?_⟩,
    (congrArg Machine.memory hnext).trans rfl,(congrArg Machine.pc hnext).trans rfl,?_⟩
  · intro c r
    rw [hdisplay, ← decide_odd_coverage m (by omega)]
    exact (Display.toggles_paint _ _ _ _).pixel c r
  · have hlen : (m.sprite n).length ≤ 32 := by
      rw [length_sprite]
      omega
    rw [hdisplay]
    exact Display.collided_paint_iff_erased m.display _ _ hlen
  · intro hx hy pc keys' addr again
    obtain ⟨htwice,hflags⟩ := m.advance.drawSprite_twice n (slot_ne_slot_flag hx16 hx)
      (slot_ne_slot_flag hy16 hy) pc
    rw [← hnext] at htwice hflags
    refine ⟨rfl,?_,?_⟩
    · exact (congrArg Display.frame htwice).trans (Display.frame_paintAll_twice _ _)
    · exact hflags.trans ((Display.mem_collisions_twice_iff _ _).trans (exists_sprite_ne_zero m n))

/-- A sprite whose second row lies behind the end of memory is drawn around the lower right corner, over
the one lit pixel, in the upper left one. -/
theorem step_draw_around_corner :
    let m := { holding [0xD0,0x12] with
      display := (Display.blank.paint 0 0 [0x80]).display
      registers := (Registers.zero.set 0 254).set 1 255
      memory := ((holding [0xD0,0x12]).memory.write 0xFFF 0x81).write 0 0x20
      index := 0xFFFF }
    let next := (m.step Keypad.released).machine
    m.instruction = .draw 0 1 2 ∧ next.display.frame.pixel 0 0 = false ∧
    next.registers.get flag = 1 ∧
    ({ next with pc := 0x202 }.execute Keypad.released (.draw 0 1 2) 0x200).machine.display.frame =
      m.display.frame := by
  intro m next
  have h : m.instruction = .draw 0 1 2 ∧ m.display.frame.pixel 0 0 = true ∧
      ((List.range (2 : UInt8).toNat).any fun k => Sprite.covers (m.byteFromIndex k)
        (m.registers.get 0).toNat ((m.registers.get 1).toNat + k) 0 0) = true := by
    decide +kernel
  obtain ⟨hi,hlit,hcov⟩ := h
  obtain ⟨-,hpixel,⟨erased,hregs,herased⟩,-,-,hagain⟩ := step_draw hi Keypad.released
  have hoff : next.display.frame.pixel 0 0 = false := by
    rw [hpixel 0 0, hlit, hcov]
    rfl
  have hset := herased.mpr ⟨0,by decide,0,by decide,hlit,hoff⟩
  refine ⟨hi,hoff,?_,(hagain (by decide) (by decide) 0x202 Keypad.released 0x200).2.1⟩
  rw [hregs, hset]
  exact Registers.get_set_self _ _ _

end Machine
end Chip8
