import Chip8.Machine.Execute

/-! Arithmetic on registers, in terms of the numbers that the registers hold. Both operands are read
before anything is written, and the flag is written last, so it ends up in `VF` even where that was
the target or an operand. -/
namespace Chip8
open Registers (slot flag)
open Outcome (ok)

/-- An operation on the values `a` and `b` that two registers hold at the start. -/
structure Computation where
  /-- The register of the first operand, which receives the result. -/
  x : UInt8
  /-- The register of the second operand. -/
  y : UInt8
  result : Nat → Nat → Nat
  /-- What the flag receives, if the operation has one. -/
  flag? : Option (Nat → Nat → Nat)

/-- The arithmetic instructions. The addition of a constant has no second register, and the shifts
take no account of theirs. -/
def Instruction.computation? : Instruction → Option Computation
  | .copy x y => some ⟨x,y,fun _ b => b,none⟩
  | .or x y => some ⟨x,y,fun a b => a ||| b,none⟩
  | .and x y => some ⟨x,y,fun a b => a &&& b,none⟩
  | .xor x y => some ⟨x,y,fun a b => a ^^^ b,none⟩
  | .addConst x n => some ⟨x,x,fun a _ => (a + n.toNat) % 256,none⟩
  | .add x y => some ⟨x,y,fun a b => (a + b) % 256,some fun a b => if 255 < a + b then 1 else 0⟩
  | .sub x y =>
    some ⟨x,y,fun a b => ((a - b : Int) % 256).toNat,some fun a b => if b ≤ a then 1 else 0⟩
  | .subFrom x y =>
    some ⟨x,y,fun a b => ((b - a : Int) % 256).toNat,some fun a b => if a ≤ b then 1 else 0⟩
  | .shiftRight x y => some ⟨x,y,fun a _ => a / 2,some fun a _ => a % 2⟩
  | .shiftLeft x y => some ⟨x,y,fun a _ => 2*a % 256,some fun a _ => if 128 ≤ a then 1 else 0⟩
  | _ => none

namespace Computation

/-- The registers `w` are what the computation makes of `v`. -/
structure Gives (c : Computation) (v w : Registers) : Prop where
  flag : ∀ f, c.flag? = some f → (w.get flag).toNat = f (v.get c.x).toNat (v.get c.y).toNat
  result : c.flag? = none ∨ slot c.x ≠ slot Registers.flag →
    (w.get c.x).toNat = c.result (v.get c.x).toNat (v.get c.y).toNat
  others : ∀ r, slot r ≠ slot c.x → c.flag? = none ∨ slot r ≠ slot Registers.flag →
    w.get r = v.get r

theorem gives_set {v : Registers} {x y b : UInt8} {result : Nat → Nat → Nat}
    (hb : b.toNat = result (v.get x).toNat (v.get y).toNat) :
    Gives ⟨x,y,result,none⟩ v (v.set x b) where
  flag f hf := nomatch hf
  result _ := by rw [Registers.get_set_self, hb]
  others r hr _ := v.get_set_of_ne b (Ne.symm hr)

theorem gives_setFlagged {v : Registers} {x y b : UInt8} {bit : Bool}
    {result f : Nat → Nat → Nat} (hb : b.toNat = result (v.get x).toNat (v.get y).toNat)
    (hbit : bit.toNat = f (v.get x).toNat (v.get y).toNat) :
    Gives ⟨x,y,result,some f⟩ v (v.setFlagged x b bit) where
  flag g hg := by
    cases hg
    rw [Registers.get_setFlagged, if_pos rfl, ← hbit]
    cases bit <;> rfl
  result h := by
    have hx := h.resolve_left (Option.some_ne_none f)
    rw [Registers.get_setFlagged, if_neg (Ne.symm hx), if_pos rfl, hb]
  others r hr h := by
    have hf := h.resolve_left (Option.some_ne_none f)
    rw [Registers.get_setFlagged, if_neg (Ne.symm hf), if_neg (Ne.symm hr)]

end Computation

section Bytes
variable (a b : UInt8)

theorem toNat_sub_byte : (a - b).toNat = ((a.toNat - b.toNat : Int) % 256).toNat := by
  have := a.toNat_lt
  have := b.toNat_lt
  rw [UInt8.toNat_sub]
  omega

theorem toNat_shiftRight_one : (a >>> 1).toNat = a.toNat / 2 := by
  rw [UInt8.toNat_shiftRight]
  exact Nat.shiftRight_eq_div_pow _ 1

theorem toNat_shiftLeft_one : (a <<< 1).toNat = 2*a.toNat % 256 := by
  rw [UInt8.toNat_shiftLeft]
  change a.toNat <<< 1 % 256 = _
  rw [Nat.shiftLeft_eq, Nat.mul_comm]

theorem toNat_beq (c : UInt8) : (a == c).toNat = if a.toNat = c.toNat then 1 else 0 := by
  by_cases h : a = c
  · simp [h]
  · simp [h, UInt8.toNat_inj]

theorem toNat_lowest_bit : (a &&& 1 == 1).toNat = a.toNat % 2 := by
  have h : (a &&& 1).toNat = a.toNat % 2 := by
    rw [UInt8.toNat_and]
    exact Nat.and_one_is_mod _
  rw [toNat_beq, h, UInt8.toNat_one]
  split <;> omega

theorem toNat_highest_bit : (a >>> 7 == 1).toNat = if 128 ≤ a.toNat then 1 else 0 := by
  have h : (a >>> 7).toNat = a.toNat / 128 := by
    rw [UInt8.toNat_shiftRight]
    exact Nat.shiftRight_eq_div_pow _ 7
  have := a.toNat_lt
  have hbit : a.toNat / 128 = 1 ↔ 128 ≤ a.toNat := by omega
  simp only [toNat_beq, h, UInt8.toNat_one, hbit]

theorem toNat_decide (p : Prop) [Decidable p] : (decide p).toNat = if p then 1 else 0 := by
  by_cases h : p <;> simp [h]

end Bytes

namespace Machine

/-- An arithmetic instruction, whatever registers its operands name and however these coincide, changes
nothing but registers. The result goes to the first register and then the flag, where there is
one, to `VF`, both computed from what the registers held before. -/
theorem execute_computes (m : Machine) (keys : Keypad) {i : Instruction} {c : Computation}
    (hi : i.computation? = some c) (addr : Address) :
    ∃ w, m.execute keys i addr = ok { m with registers := w } ∧ c.Gives m.registers w := by
  cases i with
  | copy x y =>
    cases hi
    exact ⟨_,rfl,Computation.gives_set rfl⟩
  | or x y =>
    cases hi
    exact ⟨_,rfl,Computation.gives_set (UInt8.toNat_or _ _)⟩
  | and x y =>
    cases hi
    exact ⟨_,rfl,Computation.gives_set (UInt8.toNat_and _ _)⟩
  | xor x y =>
    cases hi
    exact ⟨_,rfl,Computation.gives_set (UInt8.toNat_xor _ _)⟩
  | addConst x n =>
    cases hi
    exact ⟨_,rfl,Computation.gives_set (UInt8.toNat_add _ _)⟩
  | add x y =>
    cases hi
    exact ⟨_,rfl,Computation.gives_setFlagged (UInt8.toNat_add _ _) (toNat_decide _)⟩
  | sub x y =>
    cases hi
    exact ⟨_,rfl,Computation.gives_setFlagged (toNat_sub_byte _ _) (toNat_decide _)⟩
  | subFrom x y =>
    cases hi
    exact ⟨_,rfl,Computation.gives_setFlagged (toNat_sub_byte _ _) (toNat_decide _)⟩
  | shiftRight x y =>
    cases hi
    exact ⟨_,rfl,Computation.gives_setFlagged (toNat_shiftRight_one _) (toNat_lowest_bit _)⟩
  | shiftLeft x y =>
    cases hi
    exact ⟨_,rfl,Computation.gives_setFlagged (toNat_shiftLeft_one _) (toNat_highest_bit _)⟩
  | _ => cases hi

/-- The carry of 200 and 100 replaces their sum where the target is the flag, named by 1F here. -/
theorem execute_computes_into_flag :
    let m := { initial Config.standard (Vector.replicate 8 0) with
      registers := (Registers.zero.set 0xF 200).set 1 100 }
    ∃ w, m.execute Keypad.released (.add 0x1F 0x21) 0x200 = ok { m with registers := w } ∧
      (w.get flag).toNat = 1 ∧ w.get 1 = 100 := by
  intro m
  have h : m.registers.get 0x1F = 200 ∧ m.registers.get 0x21 = 100 ∧ m.registers.get 1 = 100 := by
    decide
  obtain ⟨ha,hb,h1⟩ := h
  obtain ⟨w,hw,hgives⟩ :=
    execute_computes m Keypad.released (i := .add 0x1F 0x21) rfl 0x200
  refine ⟨w,hw,?_,?_⟩
  · have hflag := hgives.flag _ rfl
    rw [ha, hb] at hflag
    exact hflag
  · exact (hgives.others 1 (by decide) (.inr (by decide))).trans h1

end Machine
end Chip8
