import Chip8.Proofs.Machine.KeyWait
import Chip8.Proofs.Machine.Subroutine

/-! Where a step leaves the program counter. A jump, a call or a return goes to an address of its own.
Any other step moves on by whole instructions: by two if it skips one, by none if it is a poll in vain,
and by one otherwise. Addresses go round at 65536 and the two bytes of a word are read around the end
of memory, so it makes no difference where in memory the instruction is. -/
namespace Chip8

/-- The high byte of a word is in the cell that its address selects, the low byte in the next one. -/
theorem Memory.toNat_word (m : Memory) (a : Address) :
    (m.word a).toNat =
      256 * m.cells[a.toNat % 4096].toNat + m.cells[(a.toNat + 1) % 4096].toNat := by
  have hlow : m.read (a+1) = m.cells[(a.toNat + 1) % 4096] := m.read_add a 1
  rw [word, Word.toNat_ofBytes, hlow]
  rfl

theorem PcStep.toNat_bytes_cases (s : PcStep) : s.bytes.toNat = 1 ∨ s.bytes.toNat = 2 := by
  cases s with
  | word => exact .inr rfl
  | byte => exact .inl rfl

/-- Two skips that ask for opposite conditions on the same operands. -/
inductive Instruction.Opposes : Instruction → Instruction → Prop
  | const (x n : UInt8) : Opposes (.skipEq x n) (.skipNe x n)
  | register (x y : UInt8) : Opposes (.skipEqReg x y) (.skipNeReg x y)
  | key (x : UInt8) : Opposes (.skipKey x) (.skipNoKey x)

namespace Machine

/-- The address that a jump, a call or a return goes to. -/
def target? (m : Machine) : Option Nat :=
  match m.instruction with
  | .jump a | .call a => some a.toNat
  | .jumpOffset a => some ((a.toNat + (m.registers.get 0).toNat) % 65536)
  | .ret => m.stack.toList.getLast?.map UInt16.toNat
  | _ => none

/-- Whether the instruction is a skip whose condition holds. -/
def skips (m : Machine) (keys : Keypad) : Bool :=
  let v := m.registers.get
  match m.instruction with
  | .skipEq x n => v x = n
  | .skipNe x n => v x ≠ n
  | .skipEqReg x y => v x = v y
  | .skipNeReg x y => v x ≠ v y
  | .skipKey x => keys.mask.toNat.testBit ((v x).toNat % 16)
  | .skipNoKey x => !keys.mask.toNat.testBit ((v x).toNat % 16)
  | _ => false

/-- Whether the instruction waits for a key and finds none newly down: the keys that are down were
down at the poll before as well, if there was one. -/
def waits (m : Machine) (keys : Keypad) : Bool :=
  match m.instruction, m.keyWait with
  | .waitKey _, none => true
  | .waitKey _, some previous =>
    decide (∀ b : Nat, b < 16 → keys.mask.toNat.testBit b → previous.mask.toNat.testBit b)
  | _, _ => false

/-- The address that is `n` instructions on. -/
def ahead (m : Machine) (n : Nat) : Nat := (m.pc.toNat + n * m.pcStep.bytes.toNat) % 65536

theorem ahead_zero (m : Machine) : m.ahead 0 = m.pc.toNat := by
  rw [ahead, Nat.zero_mul, Nat.add_zero, Nat.mod_eq_of_lt m.pc.toNat_lt]

theorem ahead_one (m : Machine) : m.ahead 1 = (m.pc + m.pcStep.bytes).toNat := by
  rw [ahead, Nat.one_mul, UInt16.toNat_add]

theorem ahead_two_ne_ahead_one (m : Machine) : m.ahead 2 ≠ m.ahead 1 := by
  have := m.pcStep.toNat_bytes_cases
  simp only [ahead]
  omega

/-- Where a step that succeeds leaves the program counter. -/
def destination (m : Machine) (keys : Keypad) : Nat :=
  m.target?.getD (m.ahead (if m.skips keys then 2 else if m.waits keys then 0 else 1))

theorem pc_step_of_call {m : Machine} {a : Address} (hi : m.instruction = .call a) {keys : Keypad}
    (hok : (m.step keys).fault = none) : (m.step keys).machine.pc = a := by
  rw [step_of_instruction hi] at hok ⊢
  simp only [execute] at hok ⊢
  split at hok
  · cases hok
  · rfl

theorem target?_of_ret {m : Machine} (hi : m.instruction = .ret) {keys : Keypad}
    (hok : (m.step keys).fault = none) : m.target? = some (m.step keys).machine.pc.toNat := by
  simp [target?, hi, (step_ret hi keys).2 hok]

/-- A skip that is executed moves past the next instruction exactly if its condition holds. -/
theorem toNat_pc_skipIf (m : Machine) (condition : Bool) :
    (m.advance.skipIf condition).pc.toNat = m.ahead (if condition then 2 else 1) := by
  cases condition with
  | false => exact m.ahead_one.symm
  | true =>
    change (m.pc + m.pcStep.bytes + m.pcStep.bytes).toNat = m.ahead 2
    rw [UInt16.toNat_add, UInt16.toNat_add, ahead]
    omega

theorem waits_eq_true_iff {m : Machine} {x : UInt8} (hi : m.instruction = .waitKey x)
    (keys : Keypad) : m.waits keys = true ↔ m.newKeys keys = ∅ := by
  rw [waits, newKeys, hi]
  cases hk : m.keyWait with
  | none => simp
  | some previous =>
    rw [decide_eq_true_eq, Set.sdiff_eq_empty]
    constructor
    · intro h b hb
      exact h b (Keypad.lt_of_mem_down hb) hb
    · intro h b _ hb
      exact h hb

theorem toNat_pc_step_of_waitKey {m : Machine} {x : UInt8} (hi : m.instruction = .waitKey x)
    (keys : Keypad) :
    (m.step keys).machine.pc.toNat = m.ahead (if m.waits keys then 0 else 1) := by
  simp only [waits_eq_true_iff hi]
  by_cases hv : m.newKeys keys = ∅
  · rw [step_of_pollsInVain ⟨hi,hv⟩, if_pos hv, ahead_zero]
    rfl
  · obtain ⟨key,-,hs⟩ := step_of_key hi (Set.nonempty_iff_ne_empty.mpr hv)
    rw [hs, if_neg hv, ahead_one]
    rfl

theorem toNat_pc_step {m : Machine} {keys : Keypad} (hok : (m.step keys).fault = none) :
    (m.step keys).machine.pc.toNat = m.destination keys := by
  cases hi : m.instruction with
  | jump a =>
    rw [step_of_instruction hi]
    simp only [destination, target?, hi]
    rfl
  | call a =>
    rw [pc_step_of_call hi hok]
    simp only [destination, target?, hi]
    rfl
  | jumpOffset a =>
    rw [step_of_instruction hi]
    simp only [destination, target?, hi]
    exact UInt16.toNat_add _ _
  | ret => rw [destination, target?_of_ret hi hok, Option.getD_some]
  | skipEq x n | skipNe x n | skipEqReg x y | skipNeReg x y =>
    rw [step_of_instruction hi]
    refine (m.toNat_pc_skipIf _).trans ?_
    simp [destination, target?, skips, waits, hi, advance]
  | skipKey x | skipNoKey x =>
    rw [step_of_instruction hi]
    refine (m.polled.toNat_pc_skipIf _).trans ?_
    simp [destination, target?, skips, waits, hi, advance, Keypad.isDown_eq_testBit, ahead, polled]
  | waitKey x =>
    rw [toNat_pc_step_of_waitKey hi]
    simp [destination, target?, skips, hi]
  | unknown w =>
    rw [step_of_instruction hi] at hok
    cases hok
  | _ =>
    rw [step_of_instruction hi]
    simp only [destination, target?, skips, waits, hi]
    exact m.ahead_one.symm

/-- The step goes past the instruction behind its own. -/
def Passes (m : Machine) (keys : Keypad) : Prop := (m.step keys).machine.pc.toNat = m.ahead 2

theorem passes_iff {m : Machine} {keys : Keypad}
    (hpc : (m.step keys).machine.pc.toNat = m.ahead (if m.skips keys then 2 else 1)) :
    m.Passes keys ↔ m.skips keys = true := by
  rw [Passes, hpc]
  cases m.skips keys with
  | false => simp [m.ahead_two_ne_ahead_one.symm]
  | true => simp

theorem step_of_opposes {m m' : Machine} (h : m.instruction.Opposes m'.instruction)
    (keys : Keypad) :
    ((m.step keys).fault = none ∧ (m'.step keys).fault = none) ∧
    (m.step keys).machine.pc.toNat = m.ahead (if m.skips keys then 2 else 1) ∧
    (m'.step keys).machine.pc.toNat = m'.ahead (if m'.skips keys then 2 else 1) := by
  generalize hi : m.instruction = i, hi' : m'.instruction = i' at h
  cases h with
  | const _ _ | register _ _ | key _ =>
    have hok : (m.step keys).fault = none := by
      rw [step_of_instruction hi]
      rfl
    have hok' : (m'.step keys).fault = none := by
      rw [step_of_instruction hi']
      rfl
    refine ⟨⟨hok,hok'⟩,?_,?_⟩
    · rw [toNat_pc_step hok]
      simp [destination, target?, waits, hi]
    · rw [toNat_pc_step hok']
      simp [destination, target?, waits, hi']

theorem skips_of_opposes {m : Machine} {memory : Memory}
    (h : m.instruction.Opposes { m with memory := memory }.instruction) (keys : Keypad) :
    skips { m with memory := memory } keys = !m.skips keys := by
  generalize hi : m.instruction = i, hi' : { m with memory := memory }.instruction = i' at h
  cases h with
  | const _ _ | register _ _ | key _ => simp [skips, hi, hi']

/-- A step fetches its word around the end of memory and, if it succeeds, leaves the program counter at
the destination of the instruction: at the target if it has one, and otherwise as many instructions on
as it takes at once, counted around the end of the addresses. Of two skips that ask for opposite
conditions, each in the place of the other in one and the same machine and with the same keys shown, one
skips the next instruction and the other does not. -/
theorem step_reaches_destination (m : Machine) (keys : Keypad) :
    m.word.toNat = 256 * m.memory.cells[m.pc.toNat % 4096].toNat +
      m.memory.cells[(m.pc.toNat + 1) % 4096].toNat ∧
    ((m.step keys).fault = none → (m.step keys).machine.pc.toNat = m.destination keys) ∧
    ∀ memory, let m' := { m with memory := memory }
      m.instruction.Opposes m'.instruction →
        (m.step keys).fault = none ∧ (m'.step keys).fault = none ∧
        (m.Passes keys ↔ ¬ m'.Passes keys) := by
  refine ⟨m.memory.toNat_word m.pc,toNat_pc_step,?_⟩
  intro memory m' h
  obtain ⟨⟨hok,hok'⟩,hpc,hpc'⟩ := step_of_opposes h keys
  refine ⟨hok,hok',?_⟩
  rw [passes_iff hpc, passes_iff hpc', skips_of_opposes h]
  simp

/-- Two skips at the last address, whose second byte is the first of memory. The register is zero, so
`skipEq` takes the program counter around the end of the addresses to 3 and `skipNe` to 1. -/
theorem step_reaches_destination_around_end :
    let m := { holding [] with pc := 0xFFFF, memory := Memory.blank.write 0xFFF 0x30 }
    let m' := { m with memory := Memory.blank.write 0xFFF 0x40 }
    let keys := Keypad.released
    m.instruction.Opposes m'.instruction ∧ (m.step keys).fault = none ∧
    (m.step keys).machine.pc.toNat = 3 ∧ (m'.step keys).machine.pc.toNat = 1 ∧
    m.Passes keys ∧ ¬ m'.Passes keys := by
  intro m m' keys
  have hi : m.instruction = .skipEq 0 0 ∧ m'.instruction = .skipNe 0 0 := by decide +kernel
  have hd : m.destination keys = 3 ∧ m'.destination keys = 1 ∧ m.ahead 2 = 3 := by decide +kernel
  have h : m.instruction.Opposes m'.instruction := by
    rw [hi.1, hi.2]
    exact .const 0 0
  obtain ⟨-,hdest,hpair⟩ := step_reaches_destination m keys
  obtain ⟨hok,hok',hone⟩ := hpair _ h
  have hpc : (m.step keys).machine.pc.toNat = 3 := (hdest hok).trans hd.1
  have hpass : m.Passes keys := hpc.trans hd.2.2.symm
  exact ⟨h,hok,hpc,((step_reaches_destination m' keys).2.1 hok').trans hd.2.1,hpass,hone.mp hpass⟩

end Machine
end Chip8
