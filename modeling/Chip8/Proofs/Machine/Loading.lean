import Chip8.Proofs.History
import Chip8.Proofs.Machine.Effects

/-! What is found in memory after programs were loaded and bytes were set. A program that does not fit
is refused and leaves everything as it was; one that fits covers its own cells and no others, so what
stands in low memory and behind its end stays there. A history lists the placements, the latest first. -/
namespace Chip8
open Outcome (ok)

/-- A program that is loaded, or a byte that is set. -/
inductive Placement where
  | load (program : List UInt8)
  | set (a : Address) (b : UInt8)
  deriving DecidableEq

/-- The byte that a placement brings into a cell; none if it is refused or does not cover the cell.
Programs stand from cell 512 on. -/
def Placement.byte? (c : Nat) : Placement → Option UInt8
  | .load program => if program.length ≤ 3584 ∧ 512 ≤ c then program[c-512]? else none
  | .set a b => if a.toNat % 4096 = c then some b else none

theorem Placement.byte?_load_of_outside {program : List UInt8} {c : Nat}
    (h : c < 512 ∨ 512 + program.length ≤ c) : (load program).byte? c = none := by
  rw [byte?]
  split
  · exact List.getElem?_eq_none (by omega)
  · rfl

/-- A program that is written to its start is found there, and all else where it was. -/
theorem Memory.read_writeAll_programStart (m : Memory) {program : List UInt8}
    (h : program.length ≤ 3584) (a : Address) :
    (m.writeAll programStart program).read a =
      ((Placement.load program).byte? (a.toNat % 4096)).getD (m.read a) := by
  have hstart (k : Nat) : (cell (programStart + UInt16.ofNat k)).val = (512 + k) % 4096 :=
    val_cell_add _ _
  by_cases hc : a.toNat % 4096 < 512 ∨ 512 + program.length ≤ a.toNat % 4096
  · rw [Placement.byte?_load_of_outside hc, Option.getD_none]
    refine m.read_writeAll_of_ne _ _ _ fun k hk hcell => ?_
    have hv : (cell (programStart + UInt16.ofNat k)).val = a.toNat % 4096 := congrArg Fin.val hcell
    rw [hstart] at hv
    omega
  · have hlow : 512 ≤ a.toNat % 4096 := by omega
    have hk : a.toNat % 4096 - 512 < program.length := by omega
    have hcell : cell a = cell (programStart + UInt16.ofNat (a.toNat % 4096 - 512)) := by
      apply Fin.ext
      rw [hstart]
      change a.toNat % 4096 = _
      omega
    rw [Placement.byte?, if_pos ⟨h,hlow⟩, List.getElem?_eq_getElem hk, read_congr _ hcell,
      read_writeAll m _ (by omega) hk, Option.getD_some]

namespace Machine

/-- A program that is refused leaves the machine as it was. -/
def place (m : Machine) : Placement → Outcome
  | .load program =>
    match m.load program with
    | .ok m' => ok m'
    | .error fault => ⟨m,some fault⟩
  | .set a b => ok { m with memory := m.memory.write a b }

def placed (m : Machine) (past : List Placement) : Machine :=
  History.after (fun now p => (now.place p).machine) m past

theorem placed_cons (m : Machine) (p : Placement) (past : List Placement) :
    m.placed (p :: past) = ((m.placed past).place p).machine := rfl

theorem place_load_of_length_le (m : Machine) {program : List UInt8} (h : program.length ≤ 3584) :
    m.place (.load program) =
      ok { m with memory := m.memory.writeAll Memory.programStart program, pc := 0x200 } := by
  have hfits : program.length ≤ Memory.programMax := h
  simp only [place, load, Memory.load, if_pos hfits]
  rfl

theorem place_load_of_lt_length (m : Machine) {program : List UInt8} (h : 3584 < program.length) :
    m.place (.load program) = ⟨m,some (.programTooLarge program.length 3584)⟩ := by
  have hlarge : ¬ program.length ≤ Memory.programMax := Nat.not_le_of_lt h
  simp only [place, load, Memory.load, if_neg hlarge]
  rfl

/-- A placement changes the cells that it covers. -/
theorem read_place (m : Machine) (p : Placement) (a : Address) :
    (m.place p).machine.memory.read a = (p.byte? (a.toNat % 4096)).getD (m.memory.read a) := by
  cases p with
  | load program =>
    by_cases h : program.length ≤ 3584
    · rw [m.place_load_of_length_le h]
      exact m.memory.read_writeAll_programStart h a
    · rw [m.place_load_of_lt_length (Nat.lt_of_not_le h), Placement.byte?, if_neg fun hc => h hc.1]
      rfl
  | set a' b =>
    change (m.memory.write a' b).read a = _
    simp only [Memory.read_write, Memory.cell, Fin.mk.injEq, Placement.byte?]
    split <;> rfl

/-- A cell holds what the latest placement that covers it has brought. -/
theorem read_placed (m : Machine) (past : List Placement) (a : Address) :
    (m.placed past).memory.read a =
      (past.findSome? (·.byte? (a.toNat % 4096))).getD (m.memory.read a) := by
  induction past with
  | nil => rfl
  | cons p past ih =>
    rw [placed_cons, read_place, ih, List.findSome?_cons]
    cases p.byte? (a.toNat % 4096) <;> rfl

/-- Programs are loaded whole or not at all. One of more than 3584 bytes is refused, and nothing
changes; any other one goes to the cells from 512 on and the machine to its start, and all other cells
and all the rest of the machine stay as they were. So whatever programs are loaded and bytes are set,
every address reads the byte of the latest placement that covers its cell, and the pictures of the
digits change only by bytes that are set. -/
theorem load_all_or_nothing (m : Machine) :
    (∀ program, 3584 < program.length →
      m.place (.load program) = ⟨m,some (.programTooLarge program.length 3584)⟩) ∧
    (∀ program, program.length ≤ 3584 → ∃ memory,
      m.place (.load program) = ok { m with memory := memory, pc := 0x200 } ∧
      (∀ k (hk : k < program.length), memory.read (0x200 + UInt16.ofNat k) = program[k]) ∧
      ∀ a, (a.toNat % 4096 < 512 ∨ 512 + program.length ≤ a.toNat % 4096) →
        memory.read a = m.memory.read a) ∧
    (∀ past a, (m.placed past).memory.read a =
      (past.findSome? (·.byte? (a.toNat % 4096))).getD (m.memory.read a)) ∧
    ∀ past a, 0x050 ≤ a.toNat % 4096 → a.toNat % 4096 ≤ 0x09F →
      (∀ a' b, .set a' b ∈ past → a'.toNat % 4096 ≠ a.toNat % 4096) →
      (m.placed past).memory.read a = m.memory.read a := by
  refine ⟨fun _ => m.place_load_of_lt_length,?_,m.read_placed,?_⟩
  · intro program h
    refine ⟨_,m.place_load_of_length_le h,fun k hk => ?_,fun a ha => ?_⟩
    · exact m.memory.read_writeAll _ (by omega) hk
    · rw [m.memory.read_writeAll_programStart h, Placement.byte?_load_of_outside ha, Option.getD_none]
  · intro past a hlow hhigh hspared
    have hnone : past.findSome? (·.byte? (a.toNat % 4096)) = none := by
      refine List.findSome?_eq_none_iff.mpr fun p hp => ?_
      cases p with
      | load program => exact Placement.byte?_load_of_outside (.inl (by omega))
      | set a' b => exact if_neg (hspared a' b hp)
    rw [read_placed, hnone, Option.getD_none]

/-- A program of three bytes, another of one byte in its place, a byte set by an address beyond the end
of memory, and a program that is one byte too long. -/
theorem load_all_or_nothing_of_shorter_program :
    let m := holding []
    let long := List.replicate 3585 0
    let past : List Placement := [.load long,.set 0x1201 9,.load [7],.load [1,2,3]]
    let now := m.placed past
    now.place (.load long) = ⟨now,some (.programTooLarge 3585 3584)⟩ ∧
    (∃ memory, now.place (.load [5]) = ok { now with memory := memory, pc := 0x200 } ∧
      memory.read 0x200 = 5 ∧ memory.read 0x201 = now.memory.read 0x201) ∧
    now.memory.read 0x200 = 7 ∧ now.memory.read 0x201 = 9 ∧ now.memory.read 0x202 = 3 ∧
    now.memory.read 0x050 = m.memory.read 0x050 := by
  intro m long past now
  obtain ⟨-,-,hread,hglyphs⟩ := load_all_or_nothing m
  obtain ⟨hlarge,hfits,-⟩ := load_all_or_nothing now
  have h0 : past.findSome? (·.byte? ((0x200 : Address).toNat % 4096)) = some 7 := by decide +kernel
  have h1 : past.findSome? (·.byte? ((0x201 : Address).toNat % 4096)) = some 9 := by decide +kernel
  have h2 : past.findSome? (·.byte? ((0x202 : Address).toNat % 4096)) = some 3 := by decide +kernel
  have hspared : ∀ a' b, .set a' b ∈ past → a'.toNat % 4096 ≠ (0x050 : Address).toNat % 4096 := by
    intro a' b h
    obtain ⟨rfl,rfl⟩ : a' = 0x1201 ∧ b = 9 := by simpa [past] using h
    decide
  refine ⟨?_,?_,(hread past 0x200).trans ?_,(hread past 0x201).trans ?_,
    (hread past 0x202).trans ?_,hglyphs past 0x050 (by decide) (by decide) hspared⟩
  · have hlen : long.length = 3585 := List.length_replicate
    have h := hlarge long (by omega)
    rwa [hlen] at h
  · obtain ⟨memory,hplace,hfound,hkept⟩ := hfits [5] (by decide)
    exact ⟨memory,hplace,hfound 0 (by decide),hkept 0x201 (by decide)⟩
  · rw [h0, Option.getD_some]
  · rw [h1, Option.getD_some]
  · rw [h2, Option.getD_some]

end Machine
end Chip8
