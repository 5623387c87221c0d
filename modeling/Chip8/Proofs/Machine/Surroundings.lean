import Chip8.Proofs.Machine.Footprint

/-! Runs of a machine in surroundings that it has no say in: the keypad shows what it shows, and the
timers count down between steps by themselves. A run goes on whatever faults its steps meet. -/
namespace Chip8

/-- What a running machine meets from outside. -/
structure Surroundings where
  keys : KeyScript
  /-- How often the delay timer counts down before step `n`. -/
  delayTicks : Nat → Nat
  /-- How often the sound timer does. -/
  soundTicks : Nat → Nat

/-- The timers never count down. -/
def Surroundings.still (keys : KeyScript) : Surroundings := ⟨keys,fun _ => 0,fun _ => 0⟩

namespace Machine

/-- The machine as step `n` finds it, its timers having counted down since the step before. -/
def elapse (m : Machine) (w : Surroundings) (n : Nat) : Machine :=
  { m with
    delay := Nat.repeat Timer.tick (w.delayTicks n) m.delay
    sound := Nat.repeat Timer.tick (w.soundTicks n) m.sound }

/-- The keys that the next poll reads. -/
def shown (m : Machine) (w : Surroundings) : Keypad := w.keys m.polls

/-- Step `n` of a run that has come to `m`. -/
def stepIn (m : Machine) (w : Surroundings) (n : Nat) : Outcome := (m.elapse w n).step (m.shown w)

def after (m : Machine) (w : Surroundings) : Nat → Machine
  | 0 => m
  | n+1 => ((m.after w n).stepIn w n).machine

/-- The instruction that the next step executes. -/
def instruction (m : Machine) : Instruction := Instruction.decode m.word

/-- A machine of standard settings that has just loaded a program. -/
def holding (program : List UInt8) : Machine :=
  { initial Config.standard (Vector.replicate 8 0) with
    memory := Memory.initial.writeAll Memory.programStart program }

theorem step_of_instruction {m : Machine} {i : Instruction} (h : m.instruction = i) (keys : Keypad) :
    m.step keys = m.advance.execute keys i m.pc := by
  rw [← h]
  rfl

@[simp] theorem instruction_elapse (m : Machine) (w : Surroundings) (n : Nat) :
    (m.elapse w n).instruction = m.instruction := rfl

@[simp] theorem pcStep_after (m : Machine) (w : Surroundings) (n : Nat) :
    (m.after w n).pcStep = m.pcStep := by
  induction n with
  | zero => rfl
  | succ n ih => rw [after, stepIn, pcStep_step, ← ih, elapse]

end Machine
end Chip8
