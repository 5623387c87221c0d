import Chip8.Random.ChaCha

/-! The generator of random bytes: the low bytes of the words of a key stream, each handed out
once. -/
namespace Chip8

/-- A key stream, and how many of its bytes were drawn. -/
structure Generator where
  key : ChaCha.Key
  drawn : Nat
  deriving DecidableEq

namespace Generator

/-- One step of the linear congruential generator that stretches a seed. -/
def advance (state : UInt64) : UInt64 := state * 6364136223846793005 + 11634580027462260723

/-- The word drawn from a state: its high bits folded onto themselves and rotated right by the
highest five. -/
def fold (state : UInt64) : UInt32 :=
  let folded := (((state >>> 18) ^^^ state) >>> 27).toUInt32
  let turn := (state >>> 59).toUInt32
  ChaCha.rotateLeft folded (32 - turn)

/-- The key that a seed is stretched to: one word from each of the eight states after it. -/
def keyOfSeed (seed : UInt64) : ChaCha.Key :=
  Vector.ofFn fun i : Fin 8 => fold (Nat.repeat advance (i+1) seed)

def ofKey (key : ChaCha.Key) : Generator := ⟨key,0⟩

def ofSeed (seed : UInt64) : Generator := ofKey (keyOfSeed seed)

def byte (key : ChaCha.Key) (j : Nat) : UInt8 := (ChaCha.word key j).toUInt8

def next (g : Generator) : UInt8 := byte g.key g.drawn

def draw (g : Generator) : Generator := { g with drawn := g.drawn+1 }

end Generator
end Chip8
