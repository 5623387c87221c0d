/-! Lengths of time in whole nanoseconds, up to the longest that 64-bit seconds and a nanosecond part
can tell. -/
namespace Chip8

def nanosPerSecond : Nat := 1000000000

/-- The first number of nanoseconds that is too long to be told. -/
def nanosLimit : Nat := UInt64.size * nanosPerSecond

/-- A length of time. -/
structure Duration where
  nanos : Nat
  nanos_lt : nanos < nanosLimit
  deriving DecidableEq

namespace Duration

def secs (d : Duration) : Nat := d.nanos / nanosPerSecond

def subsecNanos (d : Duration) : Nat := d.nanos % nanosPerSecond

def zero : Duration := ⟨0,by decide⟩

/-- A length of `secs` seconds and `nanos` nanoseconds; none if it is too long to be told. -/
def ofParts? (secs nanos : Nat) : Option Duration :=
  let total := secs * nanosPerSecond + nanos
  if h : total < nanosLimit then some ⟨total,h⟩ else none

def add? (d e : Duration) : Option Duration :=
  if h : d.nanos + e.nanos < nanosLimit then some ⟨d.nanos + e.nanos,h⟩ else none

def sub? (d e : Duration) : Option Duration :=
  if e.nanos ≤ d.nanos then some ⟨d.nanos - e.nanos,by have := d.nanos_lt; omega⟩ else none

/-- One part in `n` of a second, rounded down; all of it when `n` is zero. -/
def secondOver (n : Nat) : Duration :=
  ⟨nanosPerSecond / max n 1,Nat.lt_of_le_of_lt (Nat.div_le_self _ _) (by decide)⟩

theorem subsecNanos_lt (d : Duration) : d.subsecNanos < nanosPerSecond := Nat.mod_lt _ (by decide)

theorem secs_lt (d : Duration) : d.secs < UInt64.size :=
  Nat.div_lt_of_lt_mul (by rw [Nat.mul_comm]; exact d.nanos_lt)

@[ext] theorem ext {d e : Duration} (h : d.nanos = e.nanos) : d = e := by
  cases d
  cases e
  congr

end Duration
end Chip8
