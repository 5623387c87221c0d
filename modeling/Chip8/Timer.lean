/-! A countdown with a handle to it. The countdown goes on by itself; the handle remembers the value
it saw last and answers that once the countdown is over. -/
namespace Chip8

/-- A countdown at `count`, and the value the handle saw last. -/
structure Timer where
  count : UInt8
  last : UInt8
  running : Bool
  deriving DecidableEq, Repr

namespace Timer

def start : Timer := ⟨0,0,true⟩

/-- One interval passes; a countdown at zero stays there. -/
def tick (t : Timer) : Timer :=
  if t.running ∧ t.count ≠ 0 then { t with count := t.count - 1 } else t

/-- What the handle reads: the count while the timer runs, and then the value seen last. -/
def value (t : Timer) : UInt8 := if t.running then t.count else t.last

def observe (t : Timer) : Timer := { t with last := t.value }

/-- Starts over from `v`, unless the timer was stopped. -/
def set (t : Timer) (v : UInt8) : Timer := if t.running then { t with count := v, last := v } else t

/-- Ends the countdown for good. -/
def stop (t : Timer) : Timer := { t with running := false }

theorem toNat_count_tick (t : Timer) (h : t.running = true) :
    t.tick.count.toNat = t.count.toNat - 1 := by
  by_cases hc : t.count = 0
  · simp [tick, hc]
  · have : 1 ≤ t.count.toNat := by
      have := mt UInt8.toNat_inj.mp hc
      simp only [UInt8.toNat_zero] at this
      omega
    simp only [tick, h, hc, ne_eq, not_false_eq_true, and_self, if_true]
    exact UInt8.toNat_sub_of_le _ _ (UInt8.le_iff_toNat_le.mpr (by simpa using this))

@[simp] theorem value_observe (t : Timer) : t.observe.value = t.value := by
  unfold observe value
  split <;> rfl

/-- What is read after a stop is the value seen last, whatever the countdown is at. -/
@[simp] theorem value_stop (t : Timer) : t.stop.value = t.last := rfl

theorem value_set (t : Timer) (v : UInt8) : (t.set v).value = if t.running then v else t.last := by
  cases h : t.running <;> simp [set, value, h]

@[simp] theorem stop_stop (t : Timer) : t.stop.stop = t.stop := rfl

end Timer
end Chip8
