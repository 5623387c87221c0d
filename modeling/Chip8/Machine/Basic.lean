import Chip8.CallStack
import Chip8.Config
import Chip8.Display.Basic
import Chip8.Keypad.Basic
import Chip8.Memory.Font
import Chip8.Random.Generator
import Chip8.Registers
import Chip8.Timer

/-! The state of a machine, and what can be done to it between two instructions. -/
namespace Chip8

/-- Everything that an instruction can read or change. -/
structure Machine where
  display : Display
  registers : Registers
  memory : Memory
  /-- The address of the instruction to be fetched next. -/
  pc : Address
  index : Address
  stack : CallStack
  pcStep : PcStep
  delay : Timer
  sound : Timer
  /-- While a wait for a key is pending, the keys that were down at its last poll. -/
  keyWait : Option Keypad
  generator : Generator
  /-- How often the keypad was polled. -/
  polls : Nat
  deriving DecidableEq

/-- What became of a machine, and the fault that stopped it, if any. -/
structure Outcome where
  machine : Machine
  fault : Option Fault
  deriving DecidableEq

def Outcome.ok (m : Machine) : Outcome := ⟨m,none⟩

@[simp] theorem Outcome.machine_ok (m : Machine) : (Outcome.ok m).machine = m := rfl

@[simp] theorem Outcome.fault_ok (m : Machine) : (Outcome.ok m).fault = none := rfl

namespace Machine

/-- A machine with nothing but the font in memory. Its random numbers come from the seed, or from
`key` if there is none. -/
def initial (c : Config) (key : ChaCha.Key) : Machine where
  display := Display.blank
  registers := Registers.zero
  memory := Memory.initial
  pc := Memory.programStart
  index := 0
  stack := CallStack.empty
  pcStep := c.pcStep
  delay := Timer.start
  sound := Timer.start
  keyWait := none
  generator := (c.seed.map Generator.ofSeed).getD (Generator.ofKey key)
  polls := 0

/-- Loads a program and goes to its start. All else stays as it is, a pending wait for a key
included. -/
def load (m : Machine) (program : List UInt8) : Except Fault Machine :=
  (m.memory.load program).map fun memory => { m with memory := memory, pc := Memory.programStart }

def advance (m : Machine) : Machine := { m with pc := m.pc + m.pcStep.bytes }

def rewind (m : Machine) : Machine := { m with pc := m.pc - m.pcStep.bytes }

/-- Moves past one more instruction if the condition holds. -/
def skipIf (m : Machine) (condition : Bool) : Machine := if condition then m.advance else m

def word (m : Machine) : Word := m.memory.word m.pc

/-- The picture, if it has changed since it was last taken. -/
def frame? (m : Machine) : Option Frame := if m.display.dirty then some m.display.frame else none

/-- The machine once its picture is taken. -/
def frameTaken (m : Machine) : Machine := { m with display := m.display.markClean }

/-- The machine once its picture was taken but nobody wanted it, so it is offered again. -/
def frameKept (m : Machine) : Machine := { m with display := m.display.markDirty }

def tick (m : Machine) : Machine := { m with delay := m.delay.tick, sound := m.sound.tick }

def shutdown (m : Machine) : Machine := { m with delay := m.delay.stop, sound := m.sound.stop }

@[simp] theorem rewind_advance (m : Machine) : m.advance.rewind = m := by
  simp [advance, rewind]

end Machine
end Chip8
