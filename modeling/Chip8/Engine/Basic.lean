import Chip8.Accumulator
import Chip8.Display.Publisher
import Chip8.Machine.Run

/-! The engine runs a machine in batches: each time it wakes it runs the steps that the time since
the last wake pays for, and then offers the picture to the renderer if it has changed. -/
namespace Chip8

/-- One more on a counter; none if the word overflows. -/
def countUp? (count : UInt32) : Option UInt32 :=
  if count.toNat + 1 < UInt32.size then some (count+1) else none

theorem countUp?_eq_some {count next : UInt32} (h : countUp? count = some next) :
    next.toNat = count.toNat + 1 := by
  unfold countUp? at h
  split at h
  · rename_i hlt
    cases h
    rw [UInt32.toNat_add, UInt32.toNat_one]
    exact Nat.mod_eq_of_lt hlt
  · cases h

theorem countUp?_eq_none {count : UInt32} (h : countUp? count = none) :
    UInt32.size ≤ count.toNat + 1 := by simpa [countUp?] using h

/-- A batch in progress: what has become of the machine, and the time that is left to pay for steps. -/
structure Batch extends Outcome where
  /-- The steps so far that met no fault. -/
  count : UInt32
  bank : Accumulator
  deriving DecidableEq

namespace Batch

def begin (m : Machine) (bank : Accumulator) : Batch := ⟨Outcome.ok m,0,bank⟩

/-- One more step, which leaves `rest` in the bank. A step that meets no fault is counted, and the
engine crashes if the counter overflows. -/
def step (b : Batch) (script : KeyScript) (rest : Accumulator) : Batch :=
  let next := b.machine.step (script b.machine.polls)
  if next.fault.isSome then ⟨next,b.count,rest⟩
  else
    match countUp? b.count with
    | none => ⟨⟨next.machine,some .engineCrashed⟩,b.count,rest⟩
    | some count => ⟨next,count,rest⟩

theorem bank_step (b : Batch) (script : KeyScript) (rest : Accumulator) :
    (b.step script rest).bank = rest := by
  simp only [step]
  split
  · rfl
  · split <;> rfl

/-- Runs the steps that the bank pays for. A fault ends the batch, and the time that is left stays
in the bank. -/
def drain (b : Batch) (script : KeyScript) : Batch :=
  match _h : b.bank.pay? with
  | none => b
  | some rest =>
    let next := b.step script rest
    if next.fault.isSome then next else next.drain script
termination_by b.bank.banked.nanos
decreasing_by
  rw [bank_step]
  exact Accumulator.nanos_pay?_lt _h

/-- How many steps have been run: those that met no fault, and the one that met one or was one too
many for the counter. -/
def steps (b : Batch) : Nat := b.count.toNat + b.fault.isSome.toNat

end Batch

/-- A machine, the time it still has to run for, and the way to its renderer. -/
structure Engine where
  machine : Machine
  bank : Accumulator
  publisher : Publisher
  deriving DecidableEq

namespace Engine

/-- Offers the picture if it has changed; one that is refused stays pending. -/
def offerFrame (e : Engine) : Engine :=
  match e.machine.frame? with
  | none => e
  | some f =>
    let (publisher,accepted) := e.publisher.publish f
    let taken := e.machine.frameTaken
    { e with machine := if accepted then taken else taken.frameKept, publisher := publisher }

def batch (e : Engine) (script : KeyScript) : Batch :=
  (Batch.begin e.machine e.bank).drain script

/-- Wakes after some time: banks it, runs a batch and offers the picture. The fault that ends a batch
ends the wake before the picture is offered, and time too long to be banked crashes the engine. -/
def wake (e : Engine) (script : KeyScript) (elapsed : Duration) : Engine × Option Fault :=
  match e.bank.bank? elapsed with
  | none => (e,some .engineCrashed)
  | some bank =>
    let b := { e with bank := bank }.batch script
    let e := { e with machine := b.machine, bank := b.bank }
    if b.fault.isSome then (e,b.fault) else (e.offerFrame,none)

def tick (e : Engine) : Engine := { e with machine := e.machine.tick }

def shutdown (e : Engine) : Engine := { e with machine := e.machine.shutdown }

end Engine
end Chip8
