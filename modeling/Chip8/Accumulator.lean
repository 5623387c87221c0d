import Chip8.Duration

/-! Time is banked as it passes and paid out one timestep at a time, so that the number of steps
depends on the time that has passed and not on how evenly it was banked. -/
namespace Chip8

/-- Banked time, and the positive timestep in which it is paid out. -/
structure Accumulator where
  timestep : Duration
  banked : Duration
  timestep_pos : 0 < timestep.nanos
  deriving DecidableEq

namespace Accumulator

/-- Nothing is banked; a timestep of zero counts as one nanosecond. -/
def ofTimestep (d : Duration) : Accumulator :=
  ⟨⟨max d.nanos 1,Nat.max_lt.mpr ⟨d.nanos_lt,by decide⟩⟩,Duration.zero,Nat.le_max_right _ _⟩

/-- Banks the time, unless the sum would be too long to be told. -/
def bank? (a : Accumulator) (elapsed : Duration) : Option Accumulator :=
  (a.banked.add? elapsed).map fun d => { a with banked := d }

def pay? (a : Accumulator) : Option Accumulator :=
  (a.banked.sub? a.timestep).map fun d => { a with banked := d }

/-- Takes timesteps out of the bank while there are any, but no more than `max`, and says how many
were taken on top of `taken`. -/
def payUpToFrom (a : Accumulator) (taken : Nat) : Nat → Accumulator × Nat
  | 0 => (a,taken)
  | max+1 =>
    match a.pay? with
    | none => (a,taken)
    | some a' => a'.payUpToFrom (taken+1) max

/-- Takes timesteps out of the bank while there are any, but no more than `max`, and counts them. -/
def payUpTo (a : Accumulator) (max : Nat) : Accumulator × Nat := a.payUpToFrom 0 max

theorem pay?_eq_none_iff (a : Accumulator) :
    a.pay? = none ↔ a.banked.nanos < a.timestep.nanos := by
  simp [pay?, Duration.sub?]

theorem bank?_eq_none_iff (a : Accumulator) (d : Duration) :
    a.bank? d = none ↔ nanosLimit ≤ a.banked.nanos + d.nanos := by
  simp [bank?, Duration.add?]

/-- Paying uses the bank up, which bounds how often it can be done. -/
theorem nanos_pay?_lt {a a' : Accumulator} (h : a.pay? = some a') :
    a'.banked.nanos < a.banked.nanos := by
  have := a.timestep_pos
  unfold pay? Duration.sub? at h
  split at h
  · cases h
    simp only
    omega
  · cases h

end Accumulator
end Chip8
