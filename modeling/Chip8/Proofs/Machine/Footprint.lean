import Chip8.Machine.Run

/-! What instructions leave alone. A skip is first put into the form of one update of the machine, as
all other instructions have it, so that the fields outside the update are seen to stay. -/
namespace Chip8

namespace Registers

theorem get_setFlagged_of_ne (v : Registers) {r s : UInt8} (b : UInt8) (bit : Bool)
    (h : ¬ (slot s = slot r ∨ slot s = slot flag)) : (v.setFlagged r b bit).get s = v.get s := by
  rw [not_or] at h
  rw [get_setFlagged, if_neg (Ne.symm h.2), if_neg (Ne.symm h.1)]

/-- Writing to registers in turn changes no register but those. -/
theorem get_setAll_of_ne (v : Registers) (r s : UInt8) (bs : List UInt8)
    (h : ∀ k < bs.length, slot (r + UInt8.ofNat k) ≠ slot s) :
    (v.setAll r bs).get s = v.get s := by
  induction bs generalizing v r with
  | nil => rfl
  | cons b bs ih =>
    have h0 : slot r ≠ slot s := by simpa using h 0 (Nat.succ_pos _)
    rw [setAll, ih, get_set_of_ne _ _ h0]
    intro k hk
    have hs := h (k+1) (Nat.succ_lt_succ hk)
    rwa [UInt8.ofNat_add, UInt8.add_comm (UInt8.ofNat k), ← UInt8.add_assoc] at hs

end Registers

namespace Instruction
open Registers (slot flag)

/-- The registers that may receive a result or a flag. -/
def Writes : Instruction → UInt8 → Prop
  | .set x _, r | .addConst x _, r | .copy x _, r | .or x _, r | .and x _, r | .xor x _, r
  | .random x _, r | .readDelay x, r | .waitKey x, r => slot r = slot x
  | .add x _, r | .sub x _, r | .shiftRight x _, r | .subFrom x _, r | .shiftLeft x _, r =>
    slot r = slot x ∨ slot r = slot flag
  | .draw _ _ _, r => slot r = slot flag
  | .restore x, r => (slot r).val ≤ x.toNat
  | _, _ => False

/-- How many bytes are stored, from the one that the index register points at. -/
def stores : Instruction → Nat
  | .decimal _ => 3
  | .save x => x.toNat+1
  | _ => 0

/-- How often the keypad is polled. -/
def polls : Instruction → Nat
  | .skipKey _ | .skipNoKey _ | .waitKey _ => 1
  | _ => 0

end Instruction

/-- What the instruction `i` leaves alone when it takes a machine from `m` to `m'`; nothing is said of
the program counter. -/
structure Footprint (i : Instruction) (m m' : Machine) : Prop where
  registers : ∀ r, ¬ i.Writes r → m'.registers.get r = m.registers.get r := by intros; rfl
  /-- As long as a wait for a key goes on, no register changes. -/
  waiting : ∀ x, i = .waitKey x → m'.keyWait.isSome → m'.registers = m.registers := by
    intros; contradiction
  memory : ∀ a, (∀ k < i.stores, a.toNat % 4096 ≠ (m.index.toNat + k) % 4096) →
    m'.memory.read a = m.memory.read a := by intros; rfl
  display : i ≠ .clear → (∀ x y n, i ≠ .draw x y n) → m'.display = m.display := by intros; rfl
  stack : i ≠ .ret → (∀ a, i ≠ .call a) → m'.stack = m.stack := by intros; rfl
  index : (∀ a, i ≠ .setIndex a) → (∀ x, i ≠ .addIndex x) → (∀ x, i ≠ .glyph x) →
    m'.index = m.index := by intros; rfl
  generator : (∀ x n, i ≠ .random x n) → m'.generator = m.generator := by intros; rfl
  /-- The delay timer may also be read, which its handle remembers. -/
  delay : (∀ x, i ≠ .setDelay x) →
    m'.delay = m.delay ∨ m'.delay = m.delay.observe ∧ ∃ x, i = .readDelay x := by
      intros; exact .inl rfl
  sound : (∀ x, i ≠ .setSound x) → m'.sound = m.sound := by intros; rfl
  keyWait : (∀ x, i ≠ .waitKey x) → m'.keyWait = m.keyWait := by intros; rfl
  polls : m'.polls = m.polls + i.polls := by rfl
  pcStep : m'.pcStep = m.pcStep := by rfl

/-- The outcome but for the mark of a new picture. -/
def Outcome.unmarked (o : Outcome) : Outcome := { o with machine := o.machine.frameTaken }

namespace Machine
open Registers (slot)

theorem skipIf_eq (m : Machine) (condition : Bool) :
    m.skipIf condition = { m with pc := if condition then m.pc + m.pcStep.bytes else m.pc } := by
  cases condition <;> rfl

theorem footprint_execute (m : Machine) (keys : Keypad) (i : Instruction) (addr : Address) :
    Footprint i m (m.execute keys i addr).machine := by
  cases i with
  | clear => exact { display := fun h => absurd rfl h }
  | ret =>
    simp only [execute]
    split <;> exact { stack := fun h => absurd rfl h }
  | call a =>
    simp only [execute]
    split <;> exact { stack := fun _ h => absurd rfl (h a) }
  | skipEq _ _ | skipNe _ _ | skipEqReg _ _ | skipNeReg _ _ | skipKey _ | skipNoKey _ =>
    simp only [execute, skipIf_eq]
    exact {}
  | set x _ | addConst x _ | copy x _ | or x _ | and x _ | xor x _ =>
    exact { registers := fun _ h => m.registers.get_set_of_ne _ (Ne.symm h) }
  | add x _ | sub x _ | shiftRight x _ | subFrom x _ | shiftLeft x _ =>
    exact { registers := fun _ h => m.registers.get_setFlagged_of_ne _ _ h }
  | setIndex a => exact { index := fun h => absurd rfl (h a) }
  | random x n =>
    exact {
      registers := fun _ h => m.registers.get_set_of_ne _ (Ne.symm h)
      generator := fun h => absurd rfl (h x n) }
  | draw x y n =>
    exact {
      registers := fun _ h => m.registers.get_set_of_ne _ (Ne.symm h)
      display := fun _ h => absurd rfl (h x y n) }
  | readDelay x =>
    exact {
      registers := fun _ h => m.registers.get_set_of_ne _ (Ne.symm h)
      delay := fun _ => .inr ⟨rfl,x,rfl⟩ }
  | waitKey x =>
    simp only [execute, awaitKey]
    split
    · exact { waiting := fun _ _ _ => rfl, keyWait := fun h => absurd rfl (h x) }
    · exact {
        registers := fun _ h => m.registers.get_set_of_ne _ (Ne.symm h)
        waiting := fun _ _ h => absurd h Bool.false_ne_true
        keyWait := fun h => absurd rfl (h x) }
  | setDelay x => exact { delay := fun h => absurd rfl (h x) }
  | setSound x => exact { sound := fun h => absurd rfl (h x) }
  | addIndex x => exact { index := fun _ h => absurd rfl (h x) }
  | glyph x => exact { index := fun _ _ h => absurd rfl (h x) }
  | decimal x =>
    refine { memory := fun a h => m.memory.read_writeAll_of_ne m.index a _ fun k hk hc => ?_ }
    exact h k hk ((congrArg Fin.val hc).symm.trans (Memory.val_cell_add m.index k))
  | save x =>
    refine { memory := fun a h => m.memory.read_writeAll_of_ne m.index a _ fun k hk hc => ?_ }
    rw [Registers.length_upTo] at hk
    exact h k hk ((congrArg Fin.val hc).symm.trans (Memory.val_cell_add m.index k))
  | restore x =>
    refine { registers := fun r h => m.registers.get_setAll_of_ne 0 r _ fun k hk hc => ?_ }
    rw [Memory.length_span] at hk
    apply h
    -- An operand above 15 goes round the registers, so there are none left that it does not write.
    have hv := congrArg Fin.val hc
    simp only [slot, UInt8.zero_add, UInt8.toNat_ofNat'] at hv
    have := x.toNat_lt
    change r.toNat % 16 ≤ x.toNat
    omega
  | native _ | jump _ | jumpOffset _ | unknown _ => exact {}

/-- No instruction changes the step of the program counter, only a wait for a key changes whether one
is pending, and only calls and returns change the call stack. -/
theorem execute_keeps (m : Machine) (keys : Keypad) (i : Instruction) (addr : Address) :
    (m.execute keys i addr).machine.pcStep = m.pcStep ∧
    ((∀ x, i ≠ .waitKey x) → (m.execute keys i addr).machine.keyWait = m.keyWait) ∧
    ((∀ a, i ≠ .call a) → i ≠ .ret → (m.execute keys i addr).machine.stack = m.stack) := by
  have h := footprint_execute m keys i addr
  exact ⟨h.pcStep,h.keyWait,fun hc hr => h.stack hr hc⟩

@[simp] theorem pcStep_step (m : Machine) (keys : Keypad) :
    (m.step keys).machine.pcStep = m.pcStep := (execute_keeps m.advance keys _ _).1

/-- The mark of a new picture plays no part in what an instruction does. -/
theorem execute_frameTaken (m : Machine) (keys : Keypad) (i : Instruction) (addr : Address) :
    (m.frameTaken.execute keys i addr).unmarked = (m.execute keys i addr).unmarked := by
  cases i with
  | ret =>
    simp only [execute, frameTaken]
    split <;> rfl
  | call a =>
    simp only [execute, frameTaken]
    split <;> rfl
  | waitKey x =>
    simp only [execute, awaitKey, polled, frameTaken]
    split <;> rfl
  | skipEq _ _ | skipNe _ _ | skipEqReg _ _ | skipNeReg _ _ | skipKey _ | skipNoKey _ =>
    simp only [execute, skipIf_eq]
    rfl
  | _ => rfl

theorem step_frameTaken (m : Machine) (keys : Keypad) :
    (m.frameTaken.step keys).unmarked = (m.step keys).unmarked :=
  execute_frameTaken m.advance keys _ _

end Machine
end Chip8
