import Chip8.Fault

/-! The 4096 bytes of memory. Addresses have sixteen bits, of which the low twelve select a cell. -/
namespace Chip8

structure Memory where
  cells : Vector UInt8 4096
  deriving DecidableEq

namespace Memory

/-- The cell that an address selects. -/
def cell (a : Address) : Fin 4096 := ⟨a.toNat % 4096, Nat.mod_lt _ (by decide)⟩

def blank : Memory := ⟨Vector.replicate 4096 0⟩

def read (m : Memory) (a : Address) : UInt8 := m.cells[cell a]

def write (m : Memory) (a : Address) (b : UInt8) : Memory := ⟨m.cells.set (cell a) b⟩

/-- Writes the bytes to `a`, `a+1`, … in turn. -/
def writeAll (m : Memory) (a : Address) : List UInt8 → Memory
  | [] => m
  | b :: bs => (m.write a b).writeAll (a+1) bs

/-- The bytes at `a`, `a+1`, …. The length counts modulo 65536, as addresses do. -/
def span (m : Memory) (a : Address) (len : Nat) : List UInt8 :=
  (List.range (len % 65536)).map fun k => m.read (a + UInt16.ofNat k)

def word (m : Memory) (a : Address) : Word := Word.ofBytes (m.read a) (m.read (a+1))

/-- Where programs are loaded and started. -/
def programStart : Address := 0x200

def programMax : Nat := 4096 - programStart.toNat

/-- Copies a program to `programStart`; one that does not fit leaves no byte changed. -/
def load (m : Memory) (program : List UInt8) : Except Fault Memory :=
  if program.length ≤ programMax then .ok (m.writeAll programStart program)
  else .error (.programTooLarge program.length programMax)

/-- The maximal runs of nonzero bytes, each with its first address, in ascending order. -/
def runs (m : Memory) : List (Nat × List UInt8) :=
  m.cells.toList.zipIdx.foldr (fun (b, k) rs =>
    if b = 0 then rs else
      match rs with
      | (k', bs) :: rest => if k' = k+1 then (k, b :: bs) :: rest else (k, [b]) :: rs
      | [] => [(k, [b])]) []

@[simp] theorem read_blank (a : Address) : blank.read a = 0 := by simp [read, blank]

theorem read_write (m : Memory) (a a' : Address) (b : UInt8) :
    (m.write a b).read a' = if cell a = cell a' then b else m.read a' := by
  simp [read, write, Vector.getElem_set, Fin.ext_iff]

@[simp] theorem read_write_self (m : Memory) (a : Address) (b : UInt8) :
    (m.write a b).read a = b := by simp [read_write]

theorem read_congr (m : Memory) {a a' : Address} (h : cell a = cell a') : m.read a = m.read a' := by
  simp [read, h]

theorem val_cell_add (a : Address) (k : Nat) :
    (cell (a + UInt16.ofNat k)).val = (a.toNat + k) % 4096 := by
  simp only [cell, UInt16.toNat_add, UInt16.toNat_ofNat']
  omega

theorem read_add (m : Memory) (a : Address) (k : Nat) :
    m.read (a + UInt16.ofNat k) = m.cells[(a.toNat + k) % 4096] := by
  simp only [read, Fin.getElem_fin, val_cell_add]

/-- Writing bytes in turn changes no cell but theirs. -/
theorem read_writeAll_of_ne (m : Memory) (a a' : Address) (bs : List UInt8)
    (h : ∀ k < bs.length, cell (a + UInt16.ofNat k) ≠ cell a') :
    (m.writeAll a bs).read a' = m.read a' := by
  induction bs generalizing m a with
  | nil => rfl
  | cons b bs ih =>
    have h0 : cell a ≠ cell a' := by simpa using h 0 (by simp)
    rw [writeAll, ih]
    · simp [read_write, h0]
    · intro k hk
      have := h (k+1) (by simpa using hk)
      rwa [UInt16.ofNat_add, UInt16.add_comm (UInt16.ofNat k), ← UInt16.add_assoc] at this

@[simp] theorem length_span (m : Memory) (a : Address) (len : Nat) :
    (m.span a len).length = len % 65536 := by simp [span]

theorem getElem?_span (m : Memory) (a : Address) (len k : Nat) :
    (m.span a len)[k]? =
      if k < len % 65536 then some m.cells[(a.toNat + k) % 4096] else none := by
  by_cases h : k < len % 65536 <;> simp [span, h, read_add]

/-- Two memories are equal if every address reads the same in both. -/
@[ext] theorem ext {m n : Memory} (h : ∀ a, m.read a = n.read a) : m = n := by
  obtain ⟨m⟩ := m
  obtain ⟨n⟩ := n
  congr 1
  refine Vector.ext fun i hi => ?_
  have := h (UInt16.ofNat i)
  simpa [read, cell, Nat.mod_eq_of_lt hi, Nat.mod_eq_of_lt (show i < 65536 by omega)] using this

end Memory
end Chip8
