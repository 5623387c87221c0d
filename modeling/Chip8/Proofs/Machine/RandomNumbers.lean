import Chip8.Proofs.History
import Chip8.Proofs.Machine.Surroundings

/-! Where the random numbers of a machine come from. Nothing that happens to a machine changes its key
stream, and only the execution of a `random` draws from it, one word each time; so the words drawn
are as many as the executions in the whole history, whatever lies between them. A history lists what
happened, the latest first. -/
namespace Chip8

namespace ChaCha

/-- The first `n` output blocks, one after the other. -/
def stream (key : Key) (n : Nat) : List UInt32 :=
  (List.range n).flatMap fun counter => (block key counter).toList

theorem stream_succ (key : Key) (n : Nat) :
    stream key (n+1) = stream key n ++ (block key n).toList := by
  simp [stream, List.range_succ]

@[simp] theorem length_stream (key : Key) (n : Nat) : (stream key n).length = 16*n := by
  induction n with
  | zero => rfl
  | succ n ih => rw [stream_succ, List.length_append, ih, Vector.length_toList, Nat.mul_succ]

/-- The words addressed one by one are those of the blocks, none missed and none used twice. -/
theorem getElem?_stream (key : Key) {n j : Nat} (h : j < 16*n) :
    (stream key n)[j]? = some (word key j) := by
  induction n with
  | zero => omega
  | succ n ih =>
    rw [stream_succ]
    by_cases hj : j < 16*n
    · rw [List.getElem?_append_left (by rwa [length_stream]), ih hj]
    · have hdiv : j / 16 = n := by omega
      have hmod : j - 16*n = j % 16 := by omega
      rw [List.getElem?_append_right (by rw [length_stream]; omega), length_stream, hmod]
      simp [word, hdiv, Nat.mod_lt]

end ChaCha

namespace Instruction

def isRandom : Instruction → Bool
  | .random _ _ => true
  | _ => false

end Instruction

namespace Machine
open Instruction (isRandom)

/-- What can happen to a machine: a step, an instruction that is fetched and not executed or executed
and not fetched, a program to load, a timer counting down, its picture taken or kept, its end. -/
inductive Event where
  | step (keys : Keypad)
  | fetch
  | execute (keys : Keypad) (i : Instruction) (addr : Address)
  | load (program : List UInt8)
  | tickDelay
  | tickSound
  | takeFrame
  | keepFrame
  | shutdown
  deriving DecidableEq

/-- A step that faults leaves the machine as it is at that point, and a program that does not fit
leaves it as it was. -/
def happen (m : Machine) : Event → Machine
  | .step keys => (m.step keys).machine
  | .fetch => m.advance
  | .execute keys i addr => (m.execute keys i addr).machine
  | .load program =>
    match m.load program with
    | .ok m' => m'
    | .error _ => m
  | .tickDelay => { m with delay := m.delay.tick }
  | .tickSound => { m with sound := m.sound.tick }
  | .takeFrame => m.frameTaken
  | .keepFrame => m.frameKept
  | .shutdown => m.shutdown

/-- The instruction that an event executes. -/
def performed? (m : Machine) : Event → Option Instruction
  | .step _ => some m.instruction
  | .execute _ i _ => some i
  | _ => none

def through (m : Machine) (past : List Event) : Machine := History.after happen m past

theorem through_cons (m : Machine) (e : Event) (past : List Event) :
    m.through (e :: past) = (m.through past).happen e := rfl

/-- The instructions that a history executes, those that fault included. -/
def performed (m : Machine) : List Event → List Instruction
  | [] => []
  | e :: past => ((m.through past).performed? e).toList ++ m.performed past

/-- How many random numbers a history asks for. -/
def draws (m : Machine) (past : List Event) : Nat := (m.performed past).countP isRandom

theorem generator_execute (m : Machine) (keys : Keypad) (i : Instruction) (addr : Address) :
    (m.execute keys i addr).machine.generator =
      if isRandom i then m.generator.draw else m.generator := by
  cases i with
  | random x n => rfl
  | _ => exact (footprint_execute m keys _ addr).generator fun _ _ h => nomatch h

theorem generator_happen (m : Machine) (e : Event) :
    (m.happen e).generator =
      if (m.performed? e).any isRandom then m.generator.draw else m.generator := by
  cases e with
  | step keys => exact generator_execute m.advance keys m.instruction m.pc
  | execute keys i addr => exact generator_execute m keys i addr
  | load program =>
    simp only [happen, load]
    cases m.memory.load program <;> rfl
  | fetch | tickDelay | tickSound | takeFrame | keepFrame | shutdown => rfl

theorem draws_cons (m : Machine) (e : Event) (past : List Event) :
    m.draws (e :: past) =
      m.draws past + if ((m.through past).performed? e).any isRandom then 1 else 0 := by
  rw [draws, performed, List.countP_append, Nat.add_comm, draws]
  cases (m.through past).performed? e <;> simp

/-- A history moves the generator on by the words it drew, and does nothing else to it. -/
theorem generator_through (m : Machine) (past : List Event) :
    (m.through past).generator = { m.generator with drawn := m.generator.drawn + m.draws past } := by
  induction past with
  | nil => rfl
  | cons e past ih =>
    rw [through_cons, generator_happen, ih, draws_cons]
    split <;> rfl

/-- An event that executes a `random` masks the next byte of the generator into the register. -/
theorem get_happen_random {m : Machine} {e : Event} {x n : UInt8}
    (h : m.performed? e = some (.random x n)) :
    (m.happen e).registers.get x = n &&& m.generator.next := by
  cases e with
  | step keys =>
    have hi : m.instruction = .random x n := Option.some.inj h
    rw [happen, step_of_instruction hi]
    exact Registers.get_set_self _ _ _
  | execute keys i addr =>
    obtain rfl : i = .random x n := Option.some.inj h
    exact Registers.get_set_self _ _ _
  | fetch | load _ | tickDelay | tickSound | takeFrame | keepFrame | shutdown => cases h

/-- The byte that comes after `j` others from a machine with the seed. -/
def seededByte (seed : UInt64) (j : Nat) : UInt8 := Generator.byte (Generator.keyOfSeed seed) j

theorem next_through (c : Config) (key : ChaCha.Key) (seed : UInt64) (past : List Event) :
    let m := initial (c.withSeed seed) key
    (m.through past).generator.next = seededByte seed (m.draws past) := by
  intro m
  have hg : m.generator = ⟨Generator.keyOfSeed seed,0⟩ := rfl
  rw [generator_through, hg, Generator.next, Nat.zero_add, seededByte]

/-- The random numbers of a machine with a seed are one stream. Whatever has happened to the machine,
the `random` that is executed next puts a byte into its register that depends on the seed and on how
many were executed before it, and on nothing else, masked by the operand: the low byte of that word of
the output blocks of the cipher, taken one after the other. -/
theorem random_reads_stream (seed : UInt64) (j : Nat) :
    ∃ g : UInt8,
      (∀ n, j < 16*n →
        ((ChaCha.stream (Generator.keyOfSeed seed) n)[j]?).map UInt32.toUInt8 = some g) ∧
      ∀ (c : Config) (key : ChaCha.Key) (past : List Event) (e : Event) (x nn : UInt8),
        let m := initial (c.withSeed seed) key
        m.draws past = j → (m.through past).performed? e = some (.random x nn) →
          ((m.through past).happen e).registers.get x = nn &&& g := by
  refine ⟨seededByte seed j,?_,?_⟩
  · intro n hn
    rw [ChaCha.getElem?_stream _ hn]
    rfl
  · rintro c key past e x nn m rfl he
    rw [get_happen_random he, next_through]

/-- Sixteen numbers are drawn by hand after one that a program has drawn before it faults, so the next
program reads the second word of the second block; a program too large to load changes nothing. -/
theorem random_reads_stream_of_second_block :
    let m := initial (Config.standard.withSeed 7) (Vector.replicate 8 0)
    let k := Keypad.released
    let past := [.load (List.replicate 4000 0),.load [0xC5,0x0F]] ++
      List.replicate 16 (.execute k (.random 1 0xFF) 0) ++
      [.step k,.step k,.load [0xC0,0xFF,0xE0,0x00]]
    m.draws past = 17 ∧ (m.through past).performed? (.step k) = some (.random 5 0x0F) ∧
    ∃ g, ((ChaCha.stream (Generator.keyOfSeed 7) 2)[17]?).map UInt32.toUInt8 = some g ∧
      ((m.through past).happen (.step k)).registers.get 5 = 0x0F &&& g := by
  intro m k past
  have h : m.draws past = 17 ∧ (m.through past).performed? (.step k) = some (.random 5 0x0F) := by
    decide +kernel
  obtain ⟨hj,he⟩ := h
  obtain ⟨g,hg,hnext⟩ := random_reads_stream 7 17
  exact ⟨hj,he,g,hg 2 (by decide),hnext _ _ past (.step k) 5 0x0F hj he⟩

end Machine
end Chip8
