import Chip8.Machine.Execute

/-! Running a machine for several steps, ending at the first fault. -/
namespace Chip8

/-- How far a run has come; the steps include the one that met the fault. -/
structure Run extends Outcome where
  steps : Nat
  deriving DecidableEq

namespace Run

def begin (m : Machine) : Run := ⟨⟨m,none⟩,0⟩

/-- One more step, its poll reading what the script has for it. -/
def step (r : Run) (script : KeyScript) : Run :=
  ⟨r.machine.step (script r.machine.polls),r.steps+1⟩

def proceed (r : Run) (script : KeyScript) : Nat → Run
  | 0 => r
  | n+1 =>
    let next := r.step script
    if next.fault.isSome then next else next.proceed script n

end Run

namespace Machine

def run (m : Machine) (script : KeyScript) (n : Nat) : Run := (Run.begin m).proceed script n

/-- The outcome of each of up to `n` steps. -/
def trace (m : Machine) (script : KeyScript) : Nat → List Outcome
  | 0 => []
  | n+1 =>
    let next := m.step (script m.polls)
    next :: if next.fault.isSome then [] else next.machine.trace script n

/-- A run that goes on adds one step for each outcome. -/
theorem steps_proceed (r : Run) (script : KeyScript) (n : Nat) :
    (r.proceed script n).steps = r.steps + (r.machine.trace script n).length := by
  induction n generalizing r with
  | zero => rfl
  | succ n ih =>
    simp only [Run.proceed, trace]
    split
    · rename_i h
      have : (r.machine.step (script r.machine.polls)).fault.isSome := h
      simp [this, Run.step]
    · rename_i h
      have : ¬ (r.machine.step (script r.machine.polls)).fault.isSome := h
      rw [ih]
      simp [this, Run.step]
      omega

theorem steps_run (m : Machine) (script : KeyScript) (n : Nat) :
    (m.run script n).steps = (m.trace script n).length := by
  simp [run, steps_proceed, Run.begin]

end Machine
end Chip8
