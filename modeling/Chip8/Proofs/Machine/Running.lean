import Chip8.Machine.Run
import Chip8.Proofs.Machine.Faults

/-! Runs that are cut into shorter ones, and how many of their steps meet no fault. A run ends with the
first fault, so it may have fewer steps than it was given. -/
namespace Chip8
open Outcome (ok)

namespace Outcome

/-- This outcome, and up to `n` more steps unless a fault has stopped the machine. -/
def andRun (o : Outcome) (script : KeyScript) (n : Nat) : Outcome :=
  if o.fault.isSome then o else (o.machine.run script n).toOutcome

theorem andRun_of_isSome {o : Outcome} (h : o.fault.isSome) (script : KeyScript) (n : Nat) :
    o.andRun script n = o := if_pos h

theorem andRun_ok (m : Machine) (script : KeyScript) (n : Nat) :
    (ok m).andRun script n = (m.run script n).toOutcome := rfl

theorem eq_ok_of_not_isSome {o : Outcome} (h : ¬ o.fault.isSome) : o = ok o.machine := by
  obtain ⟨m,f⟩ := o
  obtain rfl : f = none := by simpa using h
  rfl

@[simp] theorem andRun_zero (o : Outcome) (script : KeyScript) : o.andRun script 0 = o := by
  by_cases h : o.fault.isSome
  · exact andRun_of_isSome h script 0
  · rw [eq_ok_of_not_isSome h]
    rfl

end Outcome

/-- How many steps a run has behind it plays no part in its outcome. -/
theorem Run.toOutcome_proceed {r s : Run} (h : r.toOutcome = s.toOutcome) (script : KeyScript)
    (n : Nat) : (r.proceed script n).toOutcome = (s.proceed script n).toOutcome := by
  induction n generalizing r s with
  | zero => exact h
  | succ n ih =>
    have hm : r.machine = s.machine := congrArg Outcome.machine h
    have hs : (r.step script).toOutcome = (s.step script).toOutcome := by
      simp only [Run.step, hm]
    have hf : (r.step script).fault = (s.step script).fault := congrArg Outcome.fault hs
    simp only [Run.proceed, hf]
    split
    · exact hs
    · exact ih hs

namespace Outcome

theorem andRun_ok_succ (m : Machine) (script : KeyScript) (n : Nat) :
    (ok m).andRun script (n+1) = (m.step (script m.polls)).andRun script n := by
  rw [andRun_ok, Machine.run, Run.proceed]
  change (if (m.step (script m.polls)).fault.isSome then _ else _ : Run).toOutcome = _
  by_cases h : (m.step (script m.polls)).fault.isSome
  · rw [if_pos h, andRun_of_isSome h]
    rfl
  · rw [if_neg h, andRun, if_neg h]
    exact Run.toOutcome_proceed (eq_ok_of_not_isSome h) script n

/-- Runs that follow one another are one run. -/
theorem andRun_andRun (o : Outcome) (script : KeyScript) (a b : Nat) :
    (o.andRun script a).andRun script b = o.andRun script (a+b) := by
  induction a generalizing o with
  | zero => rw [andRun_zero, Nat.zero_add]
  | succ a ih =>
    by_cases h : o.fault.isSome
    · simp only [andRun_of_isSome h]
    · rw [eq_ok_of_not_isSome h, Nat.add_right_comm, andRun_ok_succ, andRun_ok_succ, ih]

/-- The mark of a new picture plays no part in a run. -/
theorem andRun_unmarked (o : Outcome) (script : KeyScript) (n : Nat) :
    (o.unmarked.andRun script n).unmarked = (o.andRun script n).unmarked := by
  induction n generalizing o with
  | zero =>
    rw [andRun_zero, andRun_zero]
    rfl
  | succ n ih =>
    by_cases h : o.fault.isSome
    · rw [andRun_of_isSome h, andRun_of_isSome (o := o.unmarked) h]
      rfl
    · rw [eq_ok_of_not_isSome h]
      change ((ok o.machine.frameTaken).andRun script (n+1)).unmarked = _
      rw [andRun_ok_succ, andRun_ok_succ, ← ih, ← ih (o.machine.step _), Machine.step_frameTaken]
      rfl

end Outcome

namespace Machine

/-- How many of up to `n` steps meet no fault. -/
def successes (m : Machine) (script : KeyScript) (n : Nat) : Nat :=
  (m.trace script n).countP (·.fault.isNone)

theorem successes_succ (m : Machine) (script : KeyScript) (n : Nat) :
    m.successes script (n+1) =
      let next := m.step (script m.polls)
      if next.fault.isSome then 0 else next.machine.successes script n + 1 := by
  simp only [successes, trace]
  split
  · rename_i h
    simp [Option.isSome_iff_ne_none.mp h]
  · rename_i h
    simp [Option.not_isSome_iff_eq_none.mp h]

theorem length_trace_succ (m : Machine) (script : KeyScript) (n : Nat) :
    (m.trace script (n+1)).length =
      let next := m.step (script m.polls)
      if next.fault.isSome then 1 else (next.machine.trace script n).length + 1 := by
  simp only [trace]
  split <;> simp

theorem toOutcome_run_succ_of_isSome {m : Machine} {script : KeyScript}
    (h : (m.step (script m.polls)).fault.isSome) (n : Nat) :
    (m.run script (n+1)).toOutcome = m.step (script m.polls) := by
  rw [← Outcome.andRun_ok, Outcome.andRun_ok_succ, Outcome.andRun_of_isSome h]

theorem toOutcome_run_succ_of_not_isSome {m : Machine} {script : KeyScript}
    (h : ¬ (m.step (script m.polls)).fault.isSome) (n : Nat) :
    (m.run script (n+1)).toOutcome = ((m.step (script m.polls)).machine.run script n).toOutcome := by
  rw [← Outcome.andRun_ok, Outcome.andRun_ok_succ, Outcome.andRun, if_neg h]

theorem fault_run_succ_eq_none_iff (m : Machine) (script : KeyScript) (n : Nat) :
    (m.run script (n+1)).fault = none ↔
      let next := m.step (script m.polls)
      ¬ next.fault.isSome ∧ (next.machine.run script n).fault = none := by
  by_cases h : (m.step (script m.polls)).fault.isSome
  · have hrun := congrArg Outcome.fault (toOutcome_run_succ_of_isSome h n)
    rw [hrun]
    simp [Option.isSome_iff_ne_none.mp h]
  · have hrun := congrArg Outcome.fault (toOutcome_run_succ_of_not_isSome h n)
    rw [hrun]
    simp [h]

/-- A run goes on from where it has come to, and the mark of a new picture does not matter. -/
theorem unmarked_run_add {m now : Machine} {script : KeyScript} {n : Nat}
    (h : (m.run script n).toOutcome.unmarked = (ok now).unmarked) (k : Nat) :
    (m.run script (n+k)).toOutcome.unmarked = (now.run script k).toOutcome.unmarked := by
  rw [← Outcome.andRun_ok m, ← Outcome.andRun_andRun, ← Outcome.andRun_unmarked, Outcome.andRun_ok, h,
    Outcome.andRun_unmarked, Outcome.andRun_ok]

theorem fault_run_add {m now : Machine} {script : KeyScript} {n : Nat}
    (h : (m.run script n).toOutcome.unmarked = (ok now).unmarked) (k : Nat) :
    (m.run script (n+k)).fault = (now.run script k).fault := by
  have hrun := congrArg Outcome.fault (unmarked_run_add h k)
  exact hrun

/-- A run that has met a fault goes no further. -/
theorem toOutcome_run_of_fault {m : Machine} {script : KeyScript} {n k : Nat}
    (h : (m.run script n).fault.isSome) (hle : n ≤ k) :
    (m.run script k).toOutcome = (m.run script n).toOutcome := by
  obtain ⟨j,rfl⟩ := Nat.exists_eq_add_of_le hle
  have hrun := Outcome.andRun_andRun (ok m) script n j
  rwa [Outcome.andRun_ok, Outcome.andRun_ok, Outcome.andRun_of_isSome h, eq_comm] at hrun

theorem fault_run_ne_engineCrashed (m : Machine) (script : KeyScript) (n : Nat) :
    (m.run script n).fault ≠ some .engineCrashed := by
  induction n generalizing m with
  | zero => exact nofun
  | succ n ih =>
    by_cases h : (m.step (script m.polls)).fault.isSome
    · have hrun := congrArg Outcome.fault (toOutcome_run_succ_of_isSome h n)
      rw [hrun]
      exact m.fault_step_ne_engineCrashed _
    · have hrun := congrArg Outcome.fault (toOutcome_run_succ_of_not_isSome h n)
      rw [hrun]
      exact ih _

/-- A run has `k` steps without a fault if it may have so many and the first `k` meet none. -/
theorem le_successes_iff (m : Machine) (script : KeyScript) (n k : Nat) :
    k ≤ m.successes script n ↔ k ≤ n ∧ (m.run script k).fault = none := by
  induction k generalizing m n with
  | zero => exact iff_of_true (Nat.zero_le _) ⟨Nat.zero_le _,rfl⟩
  | succ k ih =>
    cases n with
    | zero => simp [successes, trace]
    | succ n =>
      rw [successes_succ, fault_run_succ_eq_none_iff]
      dsimp only
      split
      · simp_all
      · simp_all

theorem successes_le (m : Machine) (script : KeyScript) (n : Nat) : m.successes script n ≤ n :=
  ((m.le_successes_iff script n _).mp (Nat.le_refl _)).1

theorem successes_of_fault_eq_none {m : Machine} {script : KeyScript} {n : Nat}
    (h : (m.run script n).fault = none) : m.successes script n = n :=
  Nat.le_antisymm (m.successes_le script n) ((m.le_successes_iff script n n).mpr ⟨Nat.le_refl n,h⟩)

/-- The steps of a run are those that meet no fault and the one that does, if there is one. -/
theorem steps_run_eq_successes_add (m : Machine) (script : KeyScript) (n : Nat) :
    (m.run script n).steps = m.successes script n + (m.run script n).fault.isSome.toNat := by
  rw [steps_run]
  induction n generalizing m with
  | zero => rfl
  | succ n ih =>
    rw [length_trace_succ, successes_succ]
    by_cases h : (m.step (script m.polls)).fault.isSome
    · have hrun := congrArg Outcome.fault (toOutcome_run_succ_of_isSome h n)
      rw [hrun, if_pos h, if_pos h, h]
      rfl
    · have hrun := congrArg Outcome.fault (toOutcome_run_succ_of_not_isSome h n)
      rw [hrun, if_neg h, if_neg h, ih, Nat.add_right_comm]

/-- A run goes beyond its first `k` steps if it may and they meet no fault. -/
theorem lt_steps_run_iff (m : Machine) (script : KeyScript) (n k : Nat) :
    k < (m.run script n).steps ↔ k < n ∧ (m.run script k).fault = none := by
  rw [steps_run]
  induction k generalizing m n with
  | zero =>
    cases n with
    | zero => simp [trace]
    | succ n =>
      refine iff_of_true ?_ ⟨Nat.succ_pos n,rfl⟩
      rw [length_trace_succ]
      dsimp only
      split <;> omega
  | succ k ih =>
    cases n with
    | zero => simp [trace]
    | succ n =>
      rw [length_trace_succ, fault_run_succ_eq_none_iff]
      dsimp only
      split
      · simp_all
      · simp_all

/-- A machine that a step leaves as it was runs for as long as it may. -/
theorem run_of_step_eq_self {m : Machine} (h : ∀ keys, m.step keys = Outcome.ok m)
    (script : KeyScript) (n : Nat) : (m.run script n).fault = none := by
  induction n with
  | zero => rfl
  | succ n ih =>
    rw [fault_run_succ_eq_none_iff, h]
    exact ⟨Bool.false_ne_true,ih⟩

/-- The instruction at the start of the program jumps to itself. -/
theorem step_endless_loop (keys : Keypad) :
    (holding [0x12,0x00]).step keys = Outcome.ok (holding [0x12,0x00]) := by
  have hi : (holding [0x12,0x00]).instruction = .jump 0x200 := by decide +kernel
  rw [step_of_instruction hi]
  rfl

end Machine

end Chip8
