import Chip8.Proofs.Engine.Conservation

/-! The steps of a batch, counted in a machine word of 32 bits. Nothing bounds a batch but the time in
the bank and the first fault, so a bank that holds enough timesteps pays for more steps than such a
counter can count. -/
namespace Chip8.Batch

/-- A batch of as many steps without a fault as the counter has values overflows it with the last of
these. -/
theorem drain_of_size_le (m : Machine) (bank : Accumulator) (script : KeyScript)
    (h : UInt32.size ≤ m.successes script bank.steps) :
    let final := (begin m bank).drain script
    final.fault = some .engineCrashed ∧ final.steps = UInt32.size ∧
    final.machine = (m.run script UInt32.size).machine := by
  intro final
  obtain ⟨hlt,-,-⟩ | ⟨-,hcount,hout⟩ := drain_begin_cases m bank script
  · exact absurd h (Nat.not_le_of_lt hlt)
  · have hcrash : final.fault = some .engineCrashed := congrArg Outcome.fault hout
    have hmachine := congrArg Outcome.machine hout
    refine ⟨hcrash,?_,hmachine⟩
    rw [steps, hcrash]
    exact hcount

/-- A batch whose counter does not overflow counts its steps as a run does. -/
theorem drain_of_lt_size (m : Machine) (bank : Accumulator) (script : KeyScript)
    (h : m.successes script bank.steps < UInt32.size) :
    let final := (begin m bank).drain script
    final.toOutcome = (m.run script bank.steps).toOutcome ∧
    final.steps = (m.run script bank.steps).steps ∧
    final.count.toNat = m.successes script bank.steps := by
  intro final
  obtain ⟨-,hcount,hout⟩ | ⟨hle,-,-⟩ := drain_begin_cases m bank script
  · have hfault : final.fault = (m.run script bank.steps).fault := congrArg Outcome.fault hout
    refine ⟨hout,?_,hcount⟩
    rw [m.steps_run_eq_successes_add, ← hcount, ← hfault]
    rfl
  · exact absurd hle (Nat.not_le_of_lt h)

/-- A batch runs the steps that its bank pays for up to the first fault, and nothing else bounds their
number. Its counter of 32 bits overflows exactly if the bank pays for as many steps as the word has
values and none of these meets a fault; so many have been run then. Otherwise the batch is the run of the
steps that are paid for, and the counter counts those without a fault. -/
theorem counter_overflows_iff (timestep : Duration) (calls : List Accumulator.Call) (m : Machine)
    (script : KeyScript) :
    let bank := (Accumulator.ofTimestep timestep).after calls
    let final := (begin m bank).drain script
    let paid := bank.banked.nanos / max timestep.nanos 1
    (final.fault = some .engineCrashed ↔
      UInt32.size ≤ paid ∧ (m.run script UInt32.size).fault = none) ∧
    (UInt32.size ≤ final.steps ↔
      UInt32.size ≤ paid ∧ (m.run script (UInt32.size - 1)).fault = none) ∧
    (final.fault = some .engineCrashed →
      final.steps = UInt32.size ∧ final.machine = (m.run script UInt32.size).machine) ∧
    (final.fault ≠ some .engineCrashed →
      final.toOutcome = (m.run script paid).toOutcome ∧
      final.steps = (m.run script paid).steps ∧ final.count.toNat = m.successes script paid) := by
  intro bank final paid
  have hpaid : bank.steps = paid :=
    congrArg (bank.banked.nanos / ·.nanos) (Accumulator.timestep_after _ calls)
  have hcount_le := m.le_successes_iff script paid
  rw [← hcount_le]
  obtain hlt | hle := Nat.lt_or_ge (m.successes script paid) UInt32.size
  · obtain ⟨hout,hsteps,hcount⟩ := drain_of_lt_size m bank script (hpaid ▸ hlt)
    rw [hpaid] at hout hsteps hcount
    have hne : final.fault ≠ some .engineCrashed := by
      have hfault : final.fault = (m.run script paid).fault := congrArg Outcome.fault hout
      rw [hfault]
      exact m.fault_run_ne_engineCrashed script paid
    refine ⟨iff_of_false hne (Nat.not_le_of_lt hlt),?_,fun hc => absurd hc hne,
      fun _ => ⟨hout,hsteps,hcount⟩⟩
    have hlast := m.lt_steps_run_iff script paid (UInt32.size - 1)
    rw [hsteps]
    exact hlast
  · obtain ⟨hcrash,hsteps,hmachine⟩ := drain_of_size_le m bank script (hpaid ▸ hle)
    have hbefore := (hcount_le _).mp (Nat.le_trans (Nat.sub_le UInt32.size 1) hle)
    refine ⟨iff_of_true hcrash hle,?_,fun _ => ⟨hsteps,hmachine⟩,fun hne => absurd hcrash hne⟩
    exact iff_of_true (Nat.le_of_eq hsteps.symm) ⟨((hcount_le _).mp hle).1,hbefore.2⟩

/-- A program that loops, and a bank that is one step short: the counter reaches its highest value. -/
theorem counter_overflows_iff_of_last_count :
    let calls : List Accumulator.Call := [.bank ⟨4294967295,by decide⟩]
    let bank := (Accumulator.ofTimestep Duration.zero).after calls
    let b := begin (Machine.holding [0x12,0x00]) bank
    let script := KeyScript.const Keypad.released
    (b.drain script).fault ≠ some .engineCrashed ∧ (b.drain script).steps < UInt32.size ∧
    (b.drain script).count.toNat = 4294967295 := by
  intro calls bank b script
  have hpaid : bank.banked.nanos / max Duration.zero.nanos 1 = 4294967295 := by decide +kernel
  have hshort : ¬ UInt32.size ≤ bank.banked.nanos / max Duration.zero.nanos 1 := by
    rw [hpaid]
    decide
  have hruns (n : Nat) : (b.machine.run script n).fault = none :=
    Machine.run_of_step_eq_self Machine.step_endless_loop script n
  obtain ⟨hcrash,hsteps,-,hcount⟩ := counter_overflows_iff Duration.zero calls b.machine script
  have hne : (b.drain script).fault ≠ some .engineCrashed := fun hc => hshort (hcrash.mp hc).1
  refine ⟨hne,Nat.lt_of_not_le fun hs => hshort (hsteps.mp hs).1,?_⟩
  have hall := Machine.successes_of_fault_eq_none (hruns 4294967295)
  rw [← hpaid] at hall ⊢
  exact (hcount hne).2.2.trans hall

/-- With one nanosecond more the same program runs more steps than the counter can count. -/
theorem counter_overflows_of_endless_loop :
    let calls : List Accumulator.Call := [.bank ⟨4294967296,by decide⟩]
    let bank := (Accumulator.ofTimestep Duration.zero).after calls
    let b := begin (Machine.holding [0x12,0x00]) bank
    let script := KeyScript.const Keypad.released
    4294967295 < (b.drain script).steps ∧ (b.drain script).fault = some .engineCrashed := by
  intro calls bank b script
  have hpaid : bank.steps = UInt32.size := by decide +kernel
  have hruns (n : Nat) : (b.machine.run script n).fault = none :=
    Machine.run_of_step_eq_self Machine.step_endless_loop script n
  have hall : b.machine.successes script bank.steps = bank.steps :=
    Machine.successes_of_fault_eq_none (hruns _)
  have hle := Nat.le_of_eq (hpaid.symm.trans hall.symm)
  obtain ⟨hcrash,hsteps,-⟩ := drain_of_size_le b.machine bank script hle
  exact ⟨Nat.lt_of_lt_of_eq (by decide) hsteps.symm,hcrash⟩

end Chip8.Batch
