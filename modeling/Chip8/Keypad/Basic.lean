/-! The hexadecimal keypad: sixteen keys, each up or down. A key is named by the low four bits of a
byte. -/
namespace Chip8

/-- The keys that are down: bit `k` of the mask is set if key `k` is. -/
structure Keypad where
  mask : UInt16
  deriving DecidableEq, Repr

namespace Keypad

/-- The mask of a single key. -/
def bit (key : UInt8) : UInt16 := 1 <<< UInt16.ofNat (key.toNat % 16)

def released : Keypad := ⟨0⟩

def press (k : Keypad) (key : UInt8) : Keypad := ⟨k.mask ||| bit key⟩

def release (k : Keypad) (key : UInt8) : Keypad := ⟨k.mask &&& ~~~bit key⟩

def isDown (k : Keypad) (key : UInt8) : Bool := (k.mask &&& bit key) != 0

/-- The keys that are down in `k` and were not in `previous`. -/
def since (k previous : Keypad) : Keypad := ⟨k.mask &&& ~~~previous.mask⟩

/-- The lowest key that is down. -/
def lowest? (k : Keypad) : Option UInt8 :=
  ((List.range 16).find? k.mask.toNat.testBit).map UInt8.ofNat

theorem testBit_bit (key : UInt8) (i : Nat) :
    (bit key).toNat.testBit i = decide (key.toNat % 16 = i) := by
  have h : key.toNat % 16 < 16 := Nat.mod_lt _ (by decide)
  have hk : (bit key).toNat = 1 <<< (key.toNat % 16) := by
    simp only [bit, UInt16.toNat_shiftLeft, UInt16.toNat_ofNat']
    generalize key.toNat % 16 = k at *
    have : 2^k < 2^16 := Nat.pow_lt_pow_right (by decide) h
    simp [Nat.shiftLeft_eq, Nat.mod_eq_of_lt (show k < 65536 by omega), Nat.mod_eq_of_lt h]
    omega
  rw [hk, Nat.one_shiftLeft, Nat.testBit_two_pow]

theorem isDown_eq_testBit (k : Keypad) (key : UInt8) :
    k.isDown key = k.mask.toNat.testBit (key.toNat % 16) := by
  rw [Bool.eq_iff_iff]
  simp only [isDown, bne_iff_ne, ne_eq, ← UInt16.toNat_inj, UInt16.toNat_and]
  constructor
  · intro h
    rw [← Bool.not_eq_false]
    intro hk
    apply h
    apply Nat.eq_of_testBit_eq
    intro i
    by_cases hi : key.toNat % 16 = i
    · subst hi
      simp [hk]
    · simp [testBit_bit, hi]
  · intro hk h
    have := congrArg (Nat.testBit · (key.toNat % 16)) h
    simp [hk, testBit_bit] at this

theorem isDown_press (k : Keypad) (key other : UInt8) :
    (k.press key).isDown other =
      (decide (key.toNat % 16 = other.toNat % 16) || k.isDown other) := by
  simp [isDown_eq_testBit, press, testBit_bit, Bool.or_comm]

theorem testBit_not (w : UInt16) {i : Nat} (h : i < 16) :
    (~~~w).toNat.testBit i = !w.toNat.testBit i := by
  have := Nat.testBit_two_pow_sub_succ w.toNat_lt i
  rw [UInt16.toNat_not, UInt16.size, Nat.sub_sub, Nat.add_comm 1]
  simpa [h] using this

theorem isDown_release (k : Keypad) (key other : UInt8) :
    (k.release key).isDown other =
      (k.isDown other && !decide (key.toNat % 16 = other.toNat % 16)) := by
  have h : other.toNat % 16 < 16 := Nat.mod_lt _ (by decide)
  simp only [isDown_eq_testBit, release, UInt16.toNat_and, Nat.testBit_and, testBit_not _ h,
    testBit_bit]

@[simp] theorem isDown_released (key : UInt8) : released.isDown key = false := by
  simp [isDown, released]

end Keypad

/-- What the polls of a run read, by their number from zero on. -/
abbrev KeyScript := Nat → Keypad

namespace KeyScript

def const (k : Keypad) : KeyScript := fun _ => k

/-- Poll `k` reads `pads[k]`, and once these are used up the last of them; without any, no key is
ever down. -/
def ofArray (pads : Array Keypad) : KeyScript :=
  fun k => (pads[k]?.or pads.back?).getD Keypad.released

end KeyScript
end Chip8
