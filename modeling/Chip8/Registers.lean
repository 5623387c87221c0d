/-! The sixteen data registers `V0` to `VF`. A register is named by the low four bits of a byte. -/
namespace Chip8

structure Registers where
  cells : Vector UInt8 16
  deriving DecidableEq, Repr

namespace Registers

/-- The register that receives carries, borrows and collisions; otherwise a register like any other. -/
def flag : UInt8 := 0xF

/-- The cell that the register name `r` stands for. -/
def slot (r : UInt8) : Fin 16 := ⟨r.toNat % 16, Nat.mod_lt _ (by decide)⟩

def zero : Registers := ⟨Vector.replicate 16 0⟩

def get (v : Registers) (r : UInt8) : UInt8 := v.cells[slot r]

def set (v : Registers) (r b : UInt8) : Registers := ⟨v.cells.set (slot r) b⟩

def add (v : Registers) (r b : UInt8) : Registers := v.set r (v.get r + b)

/-- Writes a result to `Vr` and then one bit to the flag, which the bit therefore ends up in even if
`r` is the flag itself. -/
def setFlagged (v : Registers) (r b : UInt8) (bit : Bool) : Registers :=
  (v.set r b).set flag bit.toUInt8

/-- Writes the bytes to the registers `Vr`, `V(r+1)`, … in turn. -/
def setAll (v : Registers) (r : UInt8) : List UInt8 → Registers
  | [] => v
  | b :: bs => (v.set r b).setAll (r+1) bs

/-- The values of `V0` to `Vr`, going round again past `VF`. -/
def upTo (v : Registers) (r : UInt8) : List UInt8 :=
  (List.range (r.toNat+1)).map fun k => v.get (UInt8.ofNat k)

def toList (v : Registers) : List UInt8 := v.cells.toList

@[simp] theorem get_zero (r : UInt8) : zero.get r = 0 := by simp [get, zero]

@[simp] theorem length_toList (v : Registers) : v.toList.length = 16 := by simp [toList]

theorem get_set (v : Registers) (r s b : UInt8) :
    (v.set r b).get s = if slot r = slot s then b else v.get s := by
  simp [get, set, Vector.getElem_set, Fin.ext_iff]

@[simp] theorem get_set_self (v : Registers) (r b : UInt8) : (v.set r b).get r = b := by
  simp [get_set]

theorem get_set_of_ne (v : Registers) {r s : UInt8} (b : UInt8) (h : slot r ≠ slot s) :
    (v.set r b).get s = v.get s := by simp [get_set, h]

/-- The flag holds the bit, whichever register the result was for. -/
theorem get_setFlagged (v : Registers) (r s b : UInt8) (bit : Bool) :
    (v.setFlagged r b bit).get s =
      if slot flag = slot s then bit.toUInt8 else if slot r = slot s then b else v.get s := by
  simp [setFlagged, get_set]

@[simp] theorem length_upTo (v : Registers) (r : UInt8) : (v.upTo r).length = r.toNat+1 := by
  simp [upTo]

@[ext] theorem ext {v w : Registers} (h : ∀ r, v.get r = w.get r) : v = w := by
  obtain ⟨v⟩ := v
  obtain ⟨w⟩ := w
  congr 1
  refine Vector.ext fun i hi => ?_
  have := h (UInt8.ofNat i)
  simpa [get, slot, Nat.mod_eq_of_lt hi, Nat.mod_eq_of_lt (show i < 256 by omega)] using this

end Registers
end Chip8
