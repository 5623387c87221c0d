import Chip8.Proofs.Instruction.Faulty
import Chip8.Proofs.Machine.Surroundings

/-! Which steps meet a fault, and which fault; and that a fault leaves no trace but that the program
counter has moved past the instruction. -/
namespace Chip8

theorem CallStack.toList_eq_nil_iff (s : CallStack) : s.toList = [] ↔ s.depth = 0 := by
  rw [← List.length_eq_zero_iff, length_toList]

namespace Machine

theorem fault_execute_iff (m : Machine) (keys : Keypad) (i : Instruction) (addr : Address)
    (f : Fault) :
    (m.execute keys i addr).fault = some f ↔
      (∃ w, i = .unknown w ∧ f = .unknownOpcode w addr) ∨
      (i = .ret ∧ m.stack.toList = [] ∧ f = .stackUnderflow addr) ∨
      ∃ a, i = .call a ∧ m.stack.toList.length = 16 ∧ f = .stackOverflow addr a := by
  rw [CallStack.toList_eq_nil_iff, CallStack.length_toList]
  cases i with
  | ret =>
    have hd := m.stack.pop?_eq_none_iff
    cases hp : m.stack.pop? with
    | none => simp [execute, hp, hd.mp hp, @eq_comm _ f]
    | some p =>
      rw [hp] at hd
      have : m.stack.depth ≠ 0 := fun h => Option.some_ne_none _ (hd.mpr h)
      simp [execute, hp, this]
  | call a =>
    have hd := m.stack.push?_eq_none_iff m.pc
    cases hp : m.stack.push? m.pc with
    | none => simp [execute, hp, hd.mp hp, @eq_comm _ f]
    | some s =>
      rw [hp] at hd
      have : m.stack.depth ≠ 16 := fun h => Option.some_ne_none _ (hd.mpr h)
      simp [execute, hp, this]
  | unknown w => simp [execute, @eq_comm _ f]
  | _ => simp [execute]

/-- No step crashes the engine. -/
theorem fault_step_ne_engineCrashed (m : Machine) (keys : Keypad) :
    (m.step keys).fault ≠ some .engineCrashed := by
  intro h
  obtain ⟨_,-,hf⟩ | ⟨-,-,hf⟩ | ⟨_,-,-,hf⟩ := (fault_execute_iff _ _ _ _ _).mp h <;> cases hf

theorem execute_of_fault {m : Machine} {keys : Keypad} {i : Instruction} {addr : Address}
    (h : (m.execute keys i addr).fault.isSome) : (m.execute keys i addr).machine = m := by
  cases i with
  | ret =>
    simp only [execute] at h ⊢
    split at h
    · rfl
    · cases h
  | call a =>
    simp only [execute] at h ⊢
    split at h
    · rfl
    · cases h
  | unknown w => rfl
  | _ => cases h

/-- A step meets a fault exactly if the word at the program counter encodes nothing, is a return with
nothing on the call stack, or is a call with every slot taken; the fault names the address that the
word was fetched from. A step that meets one has changed nothing but that the program counter is past
the word, and an instruction that meets one, whatever its operands, has changed nothing at all. -/
theorem step_faults (m : Machine) (keys : Keypad) :
    (∀ f, (m.step keys).fault = some f ↔
      (m.instruction = .unknown m.word ∧ f = .unknownOpcode m.word m.pc) ∨
      (m.word = 0x00EE ∧ m.stack.toList = [] ∧ f = .stackUnderflow m.pc) ∨
      (m.word.group = 2 ∧ m.stack.toList.length = 16 ∧
        f = .stackOverflow m.pc m.word.address)) ∧
    ((m.step keys).fault.isSome →
      (m.step keys).machine = { m with pc := m.pc + m.pcStep.bytes }) ∧
    ∀ i addr, (m.execute keys i addr).fault.isSome → (m.execute keys i addr).machine = m := by
  refine ⟨?_,execute_of_fault,fun i addr => execute_of_fault⟩
  intro f
  have hu : (∃ w, m.instruction = .unknown w ∧ f = .unknownOpcode w m.pc) ↔
      m.instruction = .unknown m.word ∧ f = .unknownOpcode m.word m.pc := by
    constructor
    · rintro ⟨w,hi,hf⟩
      obtain rfl := Instruction.eq_of_decode_eq_unknown hi
      exact ⟨hi,hf⟩
    · rintro ⟨hi,hf⟩
      exact ⟨m.word,hi,hf⟩
  have hc : (∃ a, m.instruction = .call a ∧ m.stack.toList.length = 16 ∧
        f = .stackOverflow m.pc a) ↔
      m.word.group = 2 ∧ m.stack.toList.length = 16 ∧ f = .stackOverflow m.pc m.word.address := by
    simp only [instruction, Instruction.decode_eq_call_iff, and_assoc, exists_eq_left, exists_and_left]
  rw [← hu, ← hc, ← Instruction.decode_eq_ret_iff]
  exact fault_execute_iff m.advance keys m.instruction m.pc f

/-- A program that calls itself meets a fault with the seventeenth call, and so does a call to an
address that no word encodes. -/
theorem step_faults_of_endless_calls :
    let m := (holding [0x22,0x00]).after (Surroundings.still (KeyScript.const Keypad.released)) 16
    (m.step Keypad.released).fault = some (.stackOverflow 0x200 0x200) ∧
    (m.step Keypad.released).machine = { m with pc := 0x202 } ∧
    (m.execute Keypad.released (.call 0xFFFF) 0x200).fault = some (.stackOverflow 0x200 0xFFFF) ∧
    (m.execute Keypad.released (.call 0xFFFF) 0x200).machine = m := by
  intro m
  have h : m.word.group = 2 ∧ m.stack.toList.length = 16 ∧ m.word.address = 0x200 ∧ m.pc = 0x200 ∧
      m.pc + m.pcStep.bytes = 0x202 := by decide +kernel
  obtain ⟨hg,hd,ha,hp,hnext⟩ := h
  obtain ⟨hfault,hstate,hkept⟩ := step_faults m Keypad.released
  have hf : (m.step Keypad.released).fault = some (.stackOverflow 0x200 0x200) :=
    (hfault _).mpr (.inr (.inr ⟨hg,hd,by rw [ha, hp]⟩))
  have hdirect : (m.execute Keypad.released (.call 0xFFFF) 0x200).fault =
      some (.stackOverflow 0x200 0xFFFF) :=
    (fault_execute_iff m _ _ _ _).mpr (.inr (.inr ⟨_,rfl,hd,rfl⟩))
  refine ⟨hf,?_,hdirect,hkept _ _ (by rw [hdirect]; rfl)⟩
  rw [hstate (by rw [hf]; rfl), hnext]

end Machine
end Chip8
