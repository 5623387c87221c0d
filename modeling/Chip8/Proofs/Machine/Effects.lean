import Chip8.Proofs.Machine.Surroundings

/-! What a step may change, and what it stores when it stores the decimal digits of a register. -/
namespace Chip8

namespace Memory

/-- Bytes that are written in turn are read back, provided that they do not go all the way round. -/
theorem read_writeAll (m : Memory) (a : Address) {bs : List UInt8} (h : bs.length ≤ 4096) {k : Nat}
    (hk : k < bs.length) : (m.writeAll a bs).read (a + UInt16.ofNat k) = bs[k] := by
  induction bs generalizing m a k with
  | nil => cases hk
  | cons b bs ih =>
    rw [List.length_cons] at h hk
    rw [writeAll]
    cases k with
    | zero =>
      rw [read_writeAll_of_ne]
      · simp
      · intro j hj hc
        have hv := congrArg Fin.val hc
        rw [val_cell_add, val_cell_add, UInt16.toNat_add, UInt16.toNat_one] at hv
        omega
    | succ k =>
      have hs : a + UInt16.ofNat (k+1) = a+1 + UInt16.ofNat k := by
        rw [UInt16.ofNat_add, UInt16.add_comm (UInt16.ofNat k), ← UInt16.add_assoc]
        rfl
      rw [hs, ih (m.write a b) (a+1) (by omega) (by omega), List.getElem_cons_succ]

end Memory

namespace Machine

theorem footprint_step (m : Machine) (keys : Keypad) :
    Footprint m.instruction m (m.step keys).machine :=
  { footprint_execute m.advance keys m.instruction m.pc with }

/-- The decimal digits of `Vx` go to the three cells from the index register on, the hundreds first. -/
theorem read_step_of_decimal {m : Machine} {x : UInt8} (hi : m.instruction = .decimal x)
    (keys : Keypad) (k : Fin 3) :
    (m.step keys).machine.memory.read (m.index + UInt16.ofNat k) =
      let b := m.registers.get x
      #v[b / 100,b / 10 % 10,b % 10][k] := by
  rw [step_of_instruction hi]
  exact m.memory.read_writeAll m.index (by simp) k.isLt

/-- A step leaves alone all that its instruction has nothing to do with, whether it succeeds or not.
When the instruction stores the decimal digits of a register, the three cells hold digits that make up
the register's value. -/
theorem step_within_footprint (m : Machine) (keys : Keypad) :
    Footprint m.instruction m (m.step keys).machine ∧
    ∀ x, m.instruction = .decimal x →
      let digit (k : Fin 3) := ((m.step keys).machine.memory.read (m.index + UInt16.ofNat k)).toNat
      (∀ k, digit k ≤ 9) ∧
        100 * digit 0 + 10 * digit 1 + digit 2 = (m.registers.get x).toNat := by
  refine ⟨footprint_step m keys,?_⟩
  intro x hi digit
  have hd (k : Fin 3) := congrArg UInt8.toNat (read_step_of_decimal hi keys k)
  have h0 : digit 0 = (m.registers.get x).toNat / 100 := hd 0
  have h1 : digit 1 = (m.registers.get x).toNat / 10 % 10 := hd 1
  have h2 : digit 2 = (m.registers.get x).toNat % 10 := hd 2
  have hx := (m.registers.get x).toNat_lt
  refine ⟨?_,by omega⟩
  intro k
  match k with
  | 0 => omega
  | 1 => omega
  | 2 => omega

/-- The digits of 254 are stored around the end of memory, and nothing is stored behind them. -/
theorem step_within_footprint_of_decimal :
    let m := { holding [0xF0,0x33] with index := 0xFFE, registers := Registers.zero.set 0 254 }
    let memory := (m.step Keypad.released).machine.memory
    m.instruction = .decimal 0 ∧
    100 * (memory.read 0xFFE).toNat + 10 * (memory.read 0xFFF).toNat + (memory.read 0x1000).toNat =
      254 ∧
    memory.read 1 = m.memory.read 1 := by
  intro m memory
  have hi : m.instruction = .decimal 0 := by decide +kernel
  obtain ⟨hframe,hdigits⟩ := step_within_footprint m Keypad.released
  refine ⟨hi,(hdigits 0 hi).2,hframe.memory 1 ?_⟩
  rw [hi]
  decide

end Machine
end Chip8
