import Chip8.Proofs.Machine.Loading
import Chip8.Proofs.Machine.RandomNumbers

/-! Saving registers to memory and restoring them. Both go through the same cells in the same order,
around the end of memory if need be, and neither moves the index register. So what was saved is
restored after any history that stores nothing in those cells and brings the index register back, and
what was restored is saved to where it came from. -/
namespace Chip8

namespace Registers

/-- Bytes that are written to registers in turn are read back, provided that they do not go all the way
round. -/
theorem get_setAll (v : Registers) (r : UInt8) {bs : List UInt8} (h : bs.length ≤ 16) {k : Nat}
    (hk : k < bs.length) : (v.setAll r bs).get (r + UInt8.ofNat k) = bs[k] := by
  induction bs generalizing v r k with
  | nil => cases hk
  | cons b bs ih =>
    rw [List.length_cons] at h hk
    rw [setAll]
    cases k with
    | zero =>
      rw [get_setAll_of_ne]
      · simp
      · intro j hj hc
        have hv := congrArg Fin.val hc
        simp only [slot, UInt8.toNat_add, UInt8.toNat_ofNat', UInt8.toNat_one] at hv
        omega
    | succ k =>
      have hs : r + UInt8.ofNat (k+1) = r+1 + UInt8.ofNat k := by
        rw [UInt8.ofNat_add, UInt8.add_comm (UInt8.ofNat k), ← UInt8.add_assoc]
        rfl
      rw [hs, ih (v.set r b) (r+1) (by omega) (by omega), List.getElem_cons_succ]

theorem getElem_upTo (v : Registers) (r : UInt8) {k : Nat} (hk : k < (v.upTo r).length) :
    (v.upTo r)[k] = v.get (UInt8.ofNat k) := by
  simp [upTo]

/-- The bytes that were written to `V0` and up to `Vx` are the values of these registers. -/
theorem upTo_setAll (v : Registers) {x : UInt8} {bs : List UInt8} (hx : x.toNat ≤ 15)
    (h : bs.length = x.toNat+1) : (v.setAll 0 bs).upTo x = bs := by
  refine List.ext_getElem (by rw [length_upTo, h]) fun k _ hk => ?_
  rw [getElem_upTo, ← v.get_setAll 0 (by omega) hk, UInt8.zero_add]

/-- Values that one register file holds, written to another one, are held there as well. -/
theorem get_setAll_upTo (v w : Registers) {x r : UInt8} (hx : x.toNat ≤ 15)
    (hr : r.toNat ≤ x.toNat) : (v.setAll 0 (w.upTo x)).get r = w.get r := by
  have hk : r.toNat < (w.upTo x).length := by
    rw [length_upTo]
    omega
  have hget := v.get_setAll 0 (by rw [length_upTo]; omega) hk
  rwa [getElem_upTo, UInt8.ofNat_toNat, UInt8.zero_add] at hget

end Registers

namespace Memory

theorem getElem_span (m : Memory) (a : Address) (len : Nat) {k : Nat}
    (hk : k < (m.span a len).length) : (m.span a len)[k] = m.read (a + UInt16.ofNat k) := by
  simp [span]

theorem write_read (m : Memory) (a : Address) : m.write a (m.read a) = m := by
  refine Memory.ext fun a' => ?_
  rw [read_write]
  split
  · exact m.read_congr (by assumption)
  · rfl

/-- Writing what is there already changes nothing. -/
theorem writeAll_eq_self (m : Memory) (a : Address) {bs : List UInt8}
    (h : ∀ k (hk : k < bs.length), bs[k] = m.read (a + UInt16.ofNat k)) : m.writeAll a bs = m := by
  induction bs generalizing a with
  | nil => rfl
  | cons b bs ih =>
    have hb : b = m.read a := by simpa using h 0 (Nat.succ_pos _)
    rw [writeAll, hb, write_read]
    refine ih (a+1) fun k hk => ?_
    have hs := h (k+1) (Nat.succ_lt_succ hk)
    rwa [List.getElem_cons_succ, UInt16.ofNat_add, UInt16.add_comm (UInt16.ofNat k),
      ← UInt16.add_assoc] at hs

theorem writeAll_span (m : Memory) (a : Address) (len : Nat) : m.writeAll a (m.span a len) = m :=
  m.writeAll_eq_self a fun _ hk => m.getElem_span a len hk

end Memory

namespace Machine

/-- An event that executes an instruction does so wherever the program counter stands. -/
theorem exists_execute {m : Machine} {e : Event} {i : Instruction} (h : m.performed? e = some i) :
    ∃ pc keys addr, m.happen e = ({ m with pc := pc }.execute keys i addr).machine := by
  cases e with
  | step keys =>
    obtain rfl : m.instruction = i := Option.some.inj h
    exact ⟨m.pc + m.pcStep.bytes,keys,m.pc,rfl⟩
  | execute keys j addr =>
    obtain rfl : j = i := Option.some.inj h
    exact ⟨m.pc,keys,addr,rfl⟩
  | fetch | load _ | tickDelay | tickSound | takeFrame | keepFrame | shutdown => cases h

/-- The `n` cells from the one that the index register points at on. -/
def cellsFromIndex (m : Machine) (n : Nat) : List Nat :=
  (List.range n).map fun k => (m.index.toNat + k) % 4096

/-- The cells in which an event stores a byte; nothing is stored of a program that does not fit. -/
def storedBy (m : Machine) : Event → List Nat
  | .step _ => m.cellsFromIndex m.instruction.stores
  | .execute _ i _ => m.cellsFromIndex i.stores
  | .load program =>
    if program.length ≤ Memory.programMax then
      (List.range program.length).map (Memory.programStart.toNat + ·)
    else []
  | _ => []

/-- The cells in which a history stores a byte. -/
def stored (m : Machine) : List Event → List Nat
  | [] => []
  | e :: past => (m.through past).storedBy e ++ m.stored past

theorem ne_of_not_mem_cellsFromIndex {m : Machine} {n c : Nat} (h : c ∉ m.cellsFromIndex n) {k : Nat}
    (hk : k < n) : c ≠ (m.index.toNat + k) % 4096 :=
  fun hc => h (List.mem_map.mpr ⟨k,List.mem_range.mpr hk,hc.symm⟩)

theorem read_happen_load {m : Machine} {program : List UInt8} {a : Address}
    (h : a.toNat % 4096 ∉ m.storedBy (.load program)) :
    (m.happen (.load program)).memory.read a = m.memory.read a := by
  simp only [happen, load, Memory.load]
  by_cases hl : program.length ≤ Memory.programMax
  · rw [storedBy, if_pos hl] at h
    have hout : a.toNat % 4096 < 512 ∨ 512 + program.length ≤ a.toNat % 4096 := by
      have hstart : Memory.programStart.toNat = 512 := rfl
      refine Decidable.byContradiction fun hin => h (List.mem_map.mpr ?_)
      exact ⟨a.toNat % 4096 - 512,List.mem_range.mpr (by omega),by omega⟩
    rw [if_pos hl]
    exact (m.memory.read_writeAll_programStart hl a).trans
      (by rw [Placement.byte?_load_of_outside hout, Option.getD_none])
  · rw [if_neg hl]
    rfl

theorem read_happen {m : Machine} {e : Event} {a : Address} (h : a.toNat % 4096 ∉ m.storedBy e) :
    (m.happen e).memory.read a = m.memory.read a := by
  cases e with
  | step keys =>
    exact (footprint_step m keys).memory a fun _ hk => ne_of_not_mem_cellsFromIndex h hk
  | execute keys i addr =>
    exact (footprint_execute m keys i addr).memory a fun _ hk => ne_of_not_mem_cellsFromIndex h hk
  | load program => exact read_happen_load h
  | fetch | tickDelay | tickSound | takeFrame | keepFrame | shutdown => rfl

/-- A history leaves alone the cells in which it stores nothing. -/
theorem read_through {m : Machine} {past : List Event} {a : Address}
    (h : a.toNat % 4096 ∉ m.stored past) : (m.through past).memory.read a = m.memory.read a := by
  induction past with
  | nil => rfl
  | cons e past ih =>
    rw [stored, List.mem_append, not_or] at h
    exact (read_happen h.1).trans (ih h.2)

theorem happen_save {m : Machine} {e : Event} {x : UInt8} (h : m.performed? e = some (.save x)) :
    (m.happen e).memory = m.memory.writeAll m.index (m.registers.upTo x) := by
  obtain ⟨pc,keys,addr,he⟩ := exists_execute h
  rw [he]
  rfl

theorem happen_restore {m : Machine} {e : Event} {x : UInt8}
    (h : m.performed? e = some (.restore x)) :
    (m.happen e).registers = m.registers.setAll 0 (m.memory.span m.index (x.toNat+1)) ∧
    (m.happen e).memory = m.memory ∧ (m.happen e).index = m.index := by
  obtain ⟨pc,keys,addr,he⟩ := exists_execute h
  rw [he]
  exact ⟨rfl,rfl,rfl⟩

/-- What was saved is still there after a history that stores nothing in its place, and is found again
by an index register that selects the same cells. -/
theorem span_after_save {m : Machine} {x : UInt8} {e : Event} (hx : x.toNat ≤ 15)
    (he : m.performed? e = some (.save x)) {past : List Event}
    (hspared : ∀ k ≤ x.toNat, (m.index.toNat + k) % 4096 ∉ (m.happen e).stored past)
    {a : Address} (ha : a.toNat % 4096 = m.index.toNat % 4096) :
    ((m.happen e).through past).memory.span a (x.toNat+1) = m.registers.upTo x := by
  have hlen : (m.registers.upTo x).length = x.toNat+1 := Registers.length_upTo _ _
  refine List.ext_getElem ?_ fun k hk hk' => ?_
  · rw [Memory.length_span, hlen]
    omega
  · have hcell : Memory.cell (a + UInt16.ofNat k) = Memory.cell (m.index + UInt16.ofNat k) := by
      apply Fin.ext
      rw [Memory.val_cell_add, Memory.val_cell_add]
      omega
    have hkept : (m.index + UInt16.ofNat k).toNat % 4096 ∉ (m.happen e).stored past := by
      have hk := hspared k (by omega)
      rwa [← Memory.val_cell_add] at hk
    rw [Memory.getElem_span, Memory.read_congr _ hcell, read_through hkept, happen_save he,
      Memory.read_writeAll _ _ (by omega) hk']

/-- Saving and restoring `V0` to `Vx` undo one another. After a save, and any history in which nothing
is stored in the cells that it wrote, a restore with the index register at the same cells again brings
these registers back to what they were at the save; it leaves the registers above and the index
register as it found them. A save right after a restore leaves all of memory as it was. -/
theorem restore_undoes_save (m : Machine) (x : UInt8) (hx : x.toNat ≤ 15) :
    (∀ e, m.performed? e = some (.save x) → ∀ past,
      let saved := m.happen e
      let now := saved.through past
      (∀ k ≤ x.toNat, (m.index.toNat + k) % 4096 ∉ saved.stored past) →
      now.index.toNat % 4096 = m.index.toNat % 4096 →
      ∀ e', now.performed? e' = some (.restore x) →
        let restored := now.happen e'
        (∀ r : UInt8, r.toNat ≤ x.toNat → restored.registers.get r = m.registers.get r) ∧
        (∀ r : UInt8, x.toNat < r.toNat → r.toNat ≤ 15 →
          restored.registers.get r = now.registers.get r) ∧
        restored.index = now.index) ∧
    ∀ e, m.performed? e = some (.restore x) →
      ∀ e', (m.happen e).performed? e' = some (.save x) →
        ((m.happen e).happen e').memory = m.memory := by
  constructor
  · intro e he past saved now hspared hindex e' he' restored
    obtain ⟨hregs,-,hidx⟩ := happen_restore he'
    rw [span_after_save hx he hspared hindex] at hregs
    refine ⟨?_,?_,hidx⟩
    · intro r hr
      rw [hregs, Registers.get_setAll_upTo _ _ hx hr]
    · intro r hr hr15
      rw [hregs]
      refine Registers.get_setAll_of_ne _ 0 r _ fun k hk hc => ?_
      rw [Registers.length_upTo] at hk
      have hv := congrArg Fin.val hc
      simp only [Registers.slot, UInt8.zero_add, UInt8.toNat_ofNat'] at hv
      omega
  · intro e he e' he'
    obtain ⟨hregs,hmem,hidx⟩ := happen_restore he
    have hspan : (m.memory.span m.index (x.toNat+1)).length = x.toNat+1 := by
      rw [Memory.length_span]
      omega
    rw [happen_save he', hregs, hmem, hidx, Registers.upTo_setAll _ hx hspan, Memory.writeAll_span]

/-- Two registers are saved around the end of memory. The program overwrites one of them, stores digits
elsewhere, and restores both with the index register at the same cells by another address. A save after
that changes nothing in memory. -/
theorem restore_undoes_save_around_end :
    let program := [0xF1,0x55,0x60,0x01,0xA3,0x00,0xF0,0x33,0xAF,0xFF,0xF1,0x65,0xF1,0x55]
    let m := { holding [] with
      memory := Memory.blank.writeAll Memory.programStart program
      index := 0x1FFF
      registers := (Registers.zero.set 0 7).set 1 9 }
    let step := Event.step Keypad.released
    let past := [step,step,step,step]
    let now := (m.happen step).through past
    let restored := now.happen step
    now.registers.get 0 = 1 ∧ now.index = 0xFFF ∧
    restored.registers.get 0 = 7 ∧ restored.registers.get 1 = 9 ∧
    (restored.happen step).memory = now.memory := by
  intro program m step past now restored
  have h : m.performed? step = some (.save 1) ∧
      (∀ k ≤ (1 : UInt8).toNat, (m.index.toNat + k) % 4096 ∉ (m.happen step).stored past) ∧
      now.performed? step = some (.restore 1) ∧ restored.performed? step = some (.save 1) ∧
      now.registers.get 0 = 1 ∧ now.index = 0xFFF := by
    decide +kernel
  obtain ⟨hsave,hspared,hrestore,hagain,hoverwritten,hindex⟩ := h
  have hback : now.index.toNat % 4096 = m.index.toNat % 4096 := by
    rw [hindex]
    decide
  obtain ⟨hregs,-,-⟩ :=
    (restore_undoes_save m 1 (by decide)).1 step hsave past hspared hback step hrestore
  exact ⟨hoverwritten,hindex,hregs 0 (by decide),hregs 1 (by decide),
    (restore_undoes_save now 1 (by decide)).2 step hrestore step hagain⟩

end Machine
end Chip8
