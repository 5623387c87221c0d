import Chip8.Duration

/-! The settings of a machine and its engine. -/
namespace Chip8

/-- How far the program counter moves past a fetched instruction. -/
inductive PcStep where
  | word
  /-- One byte, so that consecutive fetches overlap, as on some early interpreters. -/
  | byte
  deriving DecidableEq, Repr

def PcStep.bytes : PcStep → UInt16
  | .word => 2
  | .byte => 1

structure Config where
  batchInterval : Duration
  timestep : Duration
  timerInterval : Duration
  pcStep : PcStep
  /-- The seed of the random numbers; without one they differ from run to run. -/
  seed : Option UInt64
  deriving DecidableEq

namespace Config

/-- The time per instruction at `hz` instructions a second; a rate of zero counts as one. -/
def timestepFor (hz : UInt32) : Duration := Duration.secondOver hz.toNat

/-- 700 instructions, 60 batches and 60 timer ticks a second. -/
def standard : Config where
  batchInterval := Duration.secondOver 60
  timestep := timestepFor 700
  timerInterval := Duration.secondOver 60
  pcStep := .word
  seed := none

def withInstructionsPerSecond (c : Config) (hz : UInt32) : Config :=
  { c with timestep := timestepFor hz }

def withBatchInterval (c : Config) (d : Duration) : Config := { c with batchInterval := d }

def withTimerInterval (c : Config) (d : Duration) : Config := { c with timerInterval := d }

def withPcStep (c : Config) (s : PcStep) : Config := { c with pcStep := s }

def withSeed (c : Config) (seed : UInt64) : Config := { c with seed := some seed }

end Config
end Chip8
