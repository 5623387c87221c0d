import Chip8.Instruction.Decode
import Chip8.Machine.Basic

/-! What each instruction does. When an instruction is executed the program counter has already moved
past it. -/
namespace Chip8.Machine
open Outcome (ok)

def mapRegisters (m : Machine) (f : Registers → Registers) : Machine :=
  { m with registers := f m.registers }

def combine (m : Machine) (x y : UInt8) (f : UInt8 → UInt8 → UInt8) : Machine :=
  m.mapRegisters fun v => v.set x (f (v.get x) (v.get y))

/-- Combines `Vx` and `Vy` into `Vx` and puts a bit that depends on both into the flag. Both
operands are read before either result is written. -/
def combineFlagged (m : Machine) (x y : UInt8) (f : UInt8 → UInt8 → UInt8)
    (bit : UInt8 → UInt8 → Bool) : Machine :=
  m.mapRegisters fun v => v.setFlagged x (f (v.get x) (v.get y)) (bit (v.get x) (v.get y))

def polled (m : Machine) : Machine := { m with polls := m.polls+1 }

/-- One poll of a wait for a key. The first poll only looks which keys are down; a later one that
finds a key down that was up at the poll before ends the wait with the lowest such key. Until then
the program counter goes back, so that the next step polls again. -/
def awaitKey (m : Machine) (x : UInt8) (keys : Keypad) : Machine :=
  match (keys.since (m.keyWait.getD keys)).lowest? with
  | none => { m.rewind with keyWait := some keys }
  | some key => { m with keyWait := none, registers := m.registers.set x key }

/-- Draws the `n` bytes at the index register and puts the collision into the flag. -/
def drawSprite (m : Machine) (x y n : UInt8) : Machine :=
  let sprite := m.memory.span m.index n.toNat
  let painted := m.display.paint (m.registers.get x) (m.registers.get y) sprite
  { m with
    display := painted.display
    registers := m.registers.set Registers.flag painted.collided.toUInt8 }

/-- Executes one instruction that was fetched from `addr`; `keys` are the keys that a poll reads. -/
def execute (m : Machine) (keys : Keypad) (i : Instruction) (addr : Address) : Outcome :=
  let v := m.registers.get
  match i with
  | .clear => ok { m with display := m.display.clear }
  | .ret =>
    match m.stack.pop? with
    | none => ⟨m,some (.stackUnderflow addr)⟩
    | some (a,stack) => ok { m with stack := stack, pc := a }
  | .native _ => ok m
  | .jump a => ok { m with pc := a }
  | .call a =>
    match m.stack.push? m.pc with
    | none => ⟨m,some (.stackOverflow addr a)⟩
    | some stack => ok { m with stack := stack, pc := a }
  | .skipEq x n => ok (m.skipIf (v x == n))
  | .skipNe x n => ok (m.skipIf (v x != n))
  | .skipEqReg x y => ok (m.skipIf (v x == v y))
  | .skipNeReg x y => ok (m.skipIf (v x != v y))
  | .set x n => ok (m.mapRegisters (·.set x n))
  | .addConst x n => ok (m.mapRegisters (·.add x n))
  | .copy x y => ok (m.combine x y fun _ b => b)
  | .or x y => ok (m.combine x y (· ||| ·))
  | .and x y => ok (m.combine x y (· &&& ·))
  | .xor x y => ok (m.combine x y (· ^^^ ·))
  | .add x y => ok (m.combineFlagged x y (· + ·) fun a b => 256 ≤ a.toNat + b.toNat)
  | .sub x y => ok (m.combineFlagged x y (· - ·) fun a b => b ≤ a)
  | .subFrom x y => ok (m.combineFlagged x y (fun a b => b - a) fun a b => a ≤ b)
  | .shiftRight x y => ok (m.combineFlagged x y (fun a _ => a >>> 1) fun a _ => a &&& 1 == 1)
  | .shiftLeft x y => ok (m.combineFlagged x y (fun a _ => a <<< 1) fun a _ => a >>> 7 == 1)
  | .setIndex a => ok { m with index := a }
  | .jumpOffset a => ok { m with pc := a + (v 0).toUInt16 }
  | .random x n =>
    ok { m.mapRegisters (·.set x (n &&& m.generator.next)) with generator := m.generator.draw }
  | .draw x y n => ok (m.drawSprite x y n)
  | .skipKey x => ok (m.polled.skipIf (keys.isDown (v x)))
  | .skipNoKey x => ok (m.polled.skipIf (!keys.isDown (v x)))
  | .readDelay x => ok { m.mapRegisters (·.set x m.delay.value) with delay := m.delay.observe }
  | .waitKey x => ok (m.polled.awaitKey x keys)
  | .setDelay x => ok { m with delay := m.delay.set (v x) }
  | .setSound x => ok { m with sound := m.sound.set (v x) }
  | .addIndex x => ok { m with index := m.index + (v x).toUInt16 }
  | .glyph x => ok { m with index := glyphAddress (v x) }
  | .decimal x =>
    ok { m with memory := m.memory.writeAll m.index [v x / 100, v x / 10 % 10, v x % 10] }
  | .save x => ok { m with memory := m.memory.writeAll m.index (m.registers.upTo x) }
  | .restore x => ok (m.mapRegisters (·.setAll 0 (m.memory.span m.index (x.toNat+1))))
  | .unknown w => ⟨m,some (.unknownOpcode w addr)⟩

/-- Fetches the instruction at the program counter, moves past it and executes it. -/
def step (m : Machine) (keys : Keypad) : Outcome :=
  m.advance.execute keys (Instruction.decode m.word) m.pc

end Chip8.Machine
