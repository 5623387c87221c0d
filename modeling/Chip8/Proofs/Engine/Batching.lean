import Chip8.Engine.Basic
import Chip8.Proofs.Machine.Running

/-! The steps that an engine runs depend on how much time has passed and not on how it was cut into
wakes. A batch pays for as many steps as the bank holds timesteps and keeps the remainder, so the
batches of several wakes make up one run; the pictures handed over in between touch nothing but the
mark that says whether there is a new one. But a batch counts its steps in a word of 32 bits, and a wake
that comes so late that the word overflows crashes the engine. -/
namespace Chip8
open Outcome (ok)

/-- What a first length of time leaves over counts on top of the one after it. -/
theorem add_div_of_pos {k : Nat} (h : 0 < k) (a b : Nat) : (a+b) / k = a / k + (a % k + b) / k := by
  rw [← Nat.mul_add_div h, ← Nat.add_assoc, Nat.div_add_mod]

namespace Accumulator

def steps (a : Accumulator) : Nat := a.banked.nanos / a.timestep.nanos

/-- A payment takes one timestep out of the bank, and so one step off what it pays for. -/
theorem pay?_eq_some {a rest : Accumulator} (h : a.pay? = some rest) :
    rest.timestep = a.timestep ∧ a.banked.nanos = rest.banked.nanos + a.timestep.nanos ∧
    a.steps = rest.steps+1 := by
  unfold pay? Duration.sub? at h
  split at h
  · rename_i hle
    cases h
    refine ⟨rfl,(Nat.sub_add_cancel hle).symm,?_⟩
    exact Nat.div_eq_sub_div a.timestep_pos hle
  · cases h

theorem exists_bank? (a : Accumulator) (d : Duration) (h : a.banked.nanos + d.nanos < nanosLimit) :
    ∃ b, a.bank? d = some b ∧ b.timestep = a.timestep ∧
      b.banked.nanos = a.banked.nanos + d.nanos := by
  refine ⟨{ a with banked := ⟨_,h⟩ },?_,rfl,rfl⟩
  simp [bank?, Duration.add?, h]

end Accumulator

namespace Batch

theorem drain_of_none {b : Batch} (h : b.bank.pay? = none) (script : KeyScript) :
    b.drain script = b := by
  rw [drain]
  split
  · rfl
  · simp_all

theorem drain_of_some {b : Batch} {rest : Accumulator} (h : b.bank.pay? = some rest)
    (script : KeyScript) :
    b.drain script =
      if (b.step script rest).fault.isSome then b.step script rest
      else (b.step script rest).drain script := by
  rw [drain]
  split
  · simp_all
  · rename_i rest' h'
    obtain rfl : rest' = rest := Option.some.inj (h'.symm.trans h)
    rfl

/-- A step meets a fault, or is one too many for the counter, or is counted. -/
theorem step_cases (b : Batch) (script : KeyScript) (rest : Accumulator) :
    let next := b.machine.step (script b.machine.polls)
    (next.fault.isSome ∧ b.step script rest = ⟨next,b.count,rest⟩) ∨
    (¬ next.fault.isSome ∧ b.count.toNat + 1 = UInt32.size ∧
      b.step script rest = ⟨⟨next.machine,some .engineCrashed⟩,b.count,rest⟩) ∨
    (¬ next.fault.isSome ∧ ∃ count : UInt32, count.toNat = b.count.toNat + 1 ∧
      b.step script rest = ⟨ok next.machine,count,rest⟩) := by
  intro next
  by_cases hf : next.fault.isSome
  · exact .inl ⟨hf,if_pos hf⟩
  · refine .inr ?_
    have hstep : b.step script rest = _ := if_neg hf
    rw [hstep]
    cases hc : countUp? b.count with
    | none => exact .inl ⟨hf,Nat.le_antisymm b.count.toNat_lt (countUp?_eq_none hc),rfl⟩
    | some count =>
      refine .inr ⟨hf,count,countUp?_eq_some hc,?_⟩
      rw [← Outcome.eq_ok_of_not_isSome hf]

/-- A batch is the run of the steps that the bank pays for, and counts those that meet no fault, as long
as the counter can hold their number. Otherwise the step that is one too many crashes the engine. -/
theorem drain_cases (b : Batch) (script : KeyScript) (hb : ¬ b.fault.isSome) :
    let final := b.drain script
    let n := b.count.toNat + b.machine.successes script b.bank.steps
    (n < UInt32.size ∧ final.count.toNat = n ∧
      final.toOutcome = (b.machine.run script b.bank.steps).toOutcome) ∨
    (UInt32.size ≤ n ∧ final.count.toNat + 1 = UInt32.size ∧
      final.toOutcome =
        ⟨(b.machine.run script (UInt32.size - b.count.toNat)).machine,some .engineCrashed⟩) := by
  induction b using drain.induct script with
  | case1 b hp =>
    have hz : b.bank.steps = 0 := Nat.div_eq_of_lt (b.bank.pay?_eq_none_iff.mp hp)
    rw [drain_of_none hp, hz]
    exact .inl ⟨b.count.toNat_lt,rfl,Outcome.eq_ok_of_not_isSome hb⟩
  | case2 b rest hp next hf =>
    obtain ⟨-,-,hs⟩ := Accumulator.pay?_eq_some hp
    rw [drain_of_some hp, if_pos hf, hs, Machine.successes_succ]
    obtain ⟨hfault,hn⟩ | ⟨hok,hlast,hn⟩ | ⟨-,count,-,hn⟩ := b.step_cases script rest
    · refine .inl ?_
      rw [hn, if_pos hfault, Machine.toOutcome_run_succ_of_isSome hfault]
      exact ⟨b.count.toNat_lt,rfl,rfl⟩
    · refine .inr ?_
      have hone : UInt32.size - b.count.toNat = 0 + 1 := by omega
      have hrun := congrArg Outcome.machine (Machine.toOutcome_run_succ_of_not_isSome hok 0)
      rw [hn, if_neg hok, hone, hrun]
      exact ⟨by omega,hlast,rfl⟩
    · change (b.step script rest).fault.isSome = true at hf
      rw [hn] at hf
      cases hf
  | case3 b rest hp next hf ih =>
    obtain ⟨-,-,hs⟩ := Accumulator.pay?_eq_some hp
    have hnext : next = b.step script rest := rfl
    rw [drain_of_some hp, if_neg hf, hs, Machine.successes_succ, ← hnext]
    clear_value next
    obtain ⟨hfault,hn⟩ | ⟨-,-,hn⟩ | ⟨hok,count,hcount,hn⟩ := b.step_cases script rest
    · obtain rfl := hnext.trans hn
      exact absurd hfault hf
    · obtain rfl := hnext.trans hn
      exact absurd rfl hf
    · obtain rfl := hnext.trans hn
      rw [if_neg hok, Machine.toOutcome_run_succ_of_not_isSome hok, ← Nat.add_assoc,
        Nat.add_right_comm, ← hcount]
      refine (ih hf).imp_right fun ⟨hle,hlast,hout⟩ => ⟨hle,hlast,hout.trans ?_⟩
      have hsize : UInt32.size - b.count.toNat = UInt32.size - count.toNat + 1 := by
        have hlt : count.toNat < UInt32.size := count.toNat_lt
        omega
      have hrun := congrArg Outcome.machine
        (Machine.toOutcome_run_succ_of_not_isSome hok (UInt32.size - count.toNat))
      rw [hsize, hrun]
      rfl

theorem drain_begin_cases (m : Machine) (bank : Accumulator) (script : KeyScript) :
    let final := (begin m bank).drain script
    let n := m.successes script bank.steps
    (n < UInt32.size ∧ final.count.toNat = n ∧
      final.toOutcome = (m.run script bank.steps).toOutcome) ∨
    (UInt32.size ≤ n ∧ final.count.toNat + 1 = UInt32.size ∧
      final.toOutcome = ⟨(m.run script UInt32.size).machine,some .engineCrashed⟩) := by
  have h := (begin m bank).drain_cases script Bool.false_ne_true
  dsimp only [begin] at h
  rwa [UInt32.toNat_zero, Nat.zero_add] at h

/-- A batch of fewer steps than the counter can count is the run of these steps. -/
theorem toOutcome_drain (m : Machine) (bank : Accumulator) (script : KeyScript)
    (h : bank.steps < UInt32.size) :
    ((begin m bank).drain script).toOutcome = (m.run script bank.steps).toOutcome := by
  obtain ⟨-,-,hout⟩ | ⟨hle,-,-⟩ := drain_begin_cases m bank script
  · exact hout
  · exact absurd (Nat.le_trans hle (m.successes_le script _)) (Nat.not_le_of_lt h)

/-- A batch without a fault leaves in the bank what is too little for a step. -/
theorem bank_drain (b : Batch) (script : KeyScript) (h : ¬ (b.drain script).fault.isSome) :
    (b.drain script).bank.timestep = b.bank.timestep ∧
    (b.drain script).bank.banked.nanos = b.bank.banked.nanos % b.bank.timestep.nanos := by
  induction b using drain.induct script with
  | case1 b hp =>
    have hlt := (b.bank.pay?_eq_none_iff).mp hp
    rw [drain_of_none hp]
    exact ⟨rfl,(Nat.mod_eq_of_lt hlt).symm⟩
  | case2 b rest hp next hf =>
    rw [drain_of_some hp, if_pos hf] at h
    exact absurd hf h
  | case3 b rest hp next hf ih =>
    obtain ⟨ht,hn,-⟩ := Accumulator.pay?_eq_some hp
    rw [drain_of_some hp, if_neg hf] at h ⊢
    have hrest : next.bank = rest := b.bank_step script rest
    rw [hrest] at ih
    obtain ⟨ht',hn'⟩ := ih h
    refine ⟨ht'.trans ht,hn'.trans ?_⟩
    rw [ht, hn, Nat.add_mod_right]

end Batch

/-- A wake of the engine: the time since the wake before, and what the renderer has done to the way
the pictures take in the meantime. -/
structure Wake where
  elapsed : Duration
  meanwhile : Publisher → Publisher

/-- What several lengths of time come to, in nanoseconds. -/
def Duration.total : List Duration → Nat
  | [] => 0
  | d :: ds => d.nanos + total ds

theorem Duration.total_append (ds es : List Duration) : total (ds ++ es) = total ds + total es := by
  induction ds with
  | nil => simp [total]
  | cons d ds ih => simp [total, ih, Nat.add_assoc]

namespace Wake

/-- The time that passes over several wakes, in nanoseconds. -/
def total (ws : List Wake) : Nat := Duration.total (ws.map elapsed)

theorem total_cons (w : Wake) (ws : List Wake) : total (w :: ws) = w.elapsed.nanos + total ws := rfl

theorem total_append (before later : List Wake) :
    total (before ++ later) = total before + total later := by
  rw [total, List.map_append, Duration.total_append]
  rfl

end Wake

namespace Engine

@[simp] theorem frameTaken_offerFrame (e : Engine) :
    e.offerFrame.machine.frameTaken = e.machine.frameTaken := by
  unfold offerFrame
  split
  · rfl
  · dsimp only
    split <;> rfl

@[simp] theorem bank_offerFrame (e : Engine) : e.offerFrame.bank = e.bank := by
  unfold offerFrame
  split <;> rfl

/-- The engine as a wake finds it, after the renderer has done its part. -/
def meet (e : Engine) (w : Wake) : Engine := { e with publisher := w.meanwhile e.publisher }

/-- The engine wakes several times, up to the first fault. -/
def wakes (e : Engine) (script : KeyScript) : List Wake → Engine × Option Fault
  | [] => (e,none)
  | w :: ws =>
    let next := (e.meet w).wake script w.elapsed
    if next.2.isSome then next else next.1.wakes script ws

/-- What a wake makes of the machine and whether it ends in a fault, but for the mark of a new
picture. -/
def seen (r : Engine × Option Fault) : Outcome := (⟨r.1.machine,r.2⟩ : Outcome).unmarked

theorem seen_of_not_isSome {r : Engine × Option Fault} (h : ¬ r.2.isSome) :
    seen r = (ok r.1.machine).unmarked := by
  obtain ⟨e,f⟩ := r
  obtain rfl : f = none := by simpa using h
  rfl

section Wake
variable {e : Engine} {d : Duration} {paid : Accumulator} (h : e.bank.bank? d = some paid)
  (script : KeyScript)
include h

theorem wake_eq :
    e.wake script d =
      let b := (Batch.begin e.machine paid).drain script
      if b.fault.isSome then ({ e with machine := b.machine, bank := b.bank },b.fault)
      else (offerFrame { e with machine := b.machine, bank := b.bank },none) := by
  simp only [wake, h]
  rfl

/-- A wake does to the machine what its batch does. -/
theorem seen_wake :
    seen (e.wake script d) = ((Batch.begin e.machine paid).drain script).toOutcome.unmarked := by
  rw [wake_eq h]
  dsimp only
  split
  · rfl
  · rename_i hf
    rw [Outcome.eq_ok_of_not_isSome hf]
    simp [seen, Outcome.unmarked]

theorem bank_wake (hf : ¬ (e.wake script d).2.isSome) :
    (e.wake script d).1.bank.timestep = paid.timestep ∧
    (e.wake script d).1.bank.banked.nanos = paid.banked.nanos % paid.timestep.nanos := by
  rw [wake_eq h] at hf ⊢
  dsimp only at hf ⊢
  split at hf
  · contradiction
  · rename_i hb
    rw [if_neg hb, bank_offerFrame]
    exact Batch.bank_drain _ script hb

end Wake

/-- After `passed` nanoseconds a wake comes too late if in the `elapsed` ones that have passed since the
wake before a run has more steps than a batch can count, and so many of them meet no fault. -/
def TooLate (m : Machine) (script : KeyScript) (timestep passed elapsed : Nat) : Prop :=
  passed / timestep + UInt32.size ≤ (passed + elapsed) / timestep ∧
  (m.run script (passed / timestep + UInt32.size)).fault = none

/-- Some wake comes too late, where `passed` nanoseconds have passed before all of them. -/
def Overruns (m : Machine) (script : KeyScript) (timestep passed : Nat) (ws : List Wake) : Prop :=
  ∃ before w later, ws = before ++ w :: later ∧
    TooLate m script timestep (passed + Wake.total before) w.elapsed.nanos

theorem overruns_cons_iff (m : Machine) (script : KeyScript) (timestep passed : Nat) (w : Wake)
    (ws : List Wake) :
    Overruns m script timestep passed (w :: ws) ↔
      TooLate m script timestep passed w.elapsed.nanos ∨
      Overruns m script timestep (passed + w.elapsed.nanos) ws := by
  constructor
  · rintro ⟨before,v,later,h,hlate⟩
    obtain ⟨rfl,hv⟩ | ⟨before,rfl,hv⟩ := List.cons_eq_append_iff.mp h
    · obtain ⟨rfl,rfl⟩ := List.cons.inj hv
      exact .inl hlate
    · rw [Wake.total_cons, ← Nat.add_assoc] at hlate
      exact .inr ⟨before,v,later,hv,hlate⟩
  · rintro (hlate | ⟨before,v,later,rfl,hlate⟩)
    · exact ⟨[],w,ws,rfl,hlate⟩
    · rw [Nat.add_assoc] at hlate
      exact ⟨w :: before,v,later,rfl,hlate⟩

/-- No wake comes too late if each comes before so many timesteps have passed that the counter cannot
count them. -/
theorem not_overruns_of_elapsed_le {timestep : Nat} (hpos : 0 < timestep) {ws : List Wake}
    (h : ∀ w ∈ ws, w.elapsed.nanos ≤ (UInt32.size - 1) * timestep) (m : Machine) (script : KeyScript)
    (passed : Nat) : ¬ Overruns m script timestep passed ws := by
  rintro ⟨before,w,later,rfl,hlate,-⟩
  have hw := h w (List.mem_append_right before List.mem_cons_self)
  have hle := Nat.div_le_div_right (c := timestep) (Nat.add_le_add_left hw (passed + Wake.total before))
  rw [Nat.add_mul_div_right _ _ hpos] at hle
  refine absurd (Nat.le_trans hlate hle) (Nat.not_le_of_lt ?_)
  exact Nat.add_lt_add_left (by decide) _

/-- After a fault no wake comes too late, since no steps are run any more. -/
theorem not_overruns_of_fault {m : Machine} {script : KeyScript} {timestep passed : Nat}
    (h : (m.run script (passed / timestep)).fault.isSome) (ws : List Wake) :
    ¬ Overruns m script timestep passed ws := by
  rintro ⟨before,w,later,-,-,hnone⟩
  have hle : passed / timestep ≤ (passed + Wake.total before) / timestep + UInt32.size :=
    Nat.le_add_right_of_le (Nat.div_le_div_right (Nat.le_add_right _ _))
  have hrun := congrArg Outcome.fault (Machine.toOutcome_run_of_fault h hle)
  rw [← hrun, hnone] at h
  cases h

/-- The engine has come to where a run of `m` comes in so many nanoseconds, and has met no fault. -/
structure Reached (m : Machine) (script : KeyScript) (timestep passed : Nat) (e : Engine) : Prop where
  machine : (m.run script (passed / timestep)).toOutcome.unmarked = (ok e.machine).unmarked
  banked : e.bank.banked.nanos = passed % timestep
  timestep : e.bank.timestep.nanos = timestep

theorem reached_of_banked_lt {e : Engine} (h : e.bank.banked.nanos < e.bank.timestep.nanos)
    (script : KeyScript) :
    Reached e.machine script e.bank.timestep.nanos e.bank.banked.nanos e where
  machine := by
    rw [Nat.div_eq_of_lt h]
    rfl
  banked := (Nat.mod_eq_of_lt h).symm
  timestep := rfl

section Run
variable {m : Machine} {script : KeyScript} {timestep passed : Nat} {e : Engine}

/-- A wake that is not too late goes on with the run. -/
theorem wake_cases (h : Reached m script timestep passed e) (d : Duration)
    (hfit : passed % timestep + d.nanos < nanosLimit) :
    let r := e.wake script d
    (TooLate m script timestep passed d.nanos ∧ r.2 = some .engineCrashed) ∨
    (¬ TooLate m script timestep passed d.nanos ∧
      seen r = (m.run script ((passed + d.nanos) / timestep)).toOutcome.unmarked ∧
      (¬ r.2.isSome → Reached m script timestep (passed + d.nanos) r.1)) := by
  intro r
  rw [← h.banked] at hfit
  obtain ⟨paid,hp,hpt,hpn⟩ := e.bank.exists_bank? d hfit
  have hpos : 0 < timestep := h.timestep ▸ e.bank.timestep_pos
  have hpt : paid.timestep.nanos = timestep := hpt ▸ h.timestep
  have hpn : paid.banked.nanos = passed % timestep + d.nanos := h.banked ▸ hpn
  have hsteps : passed / timestep + paid.steps = (passed + d.nanos) / timestep := by
    rw [add_div_of_pos hpos passed, Accumulator.steps, hpt, hpn]
  have hrun := Machine.unmarked_run_add h.machine
  have hlate : TooLate m script timestep passed d.nanos ↔
      UInt32.size ≤ e.machine.successes script paid.steps := by
    rw [Machine.le_successes_iff, TooLate, ← hsteps, Nat.add_le_add_iff_left,
      Machine.fault_run_add h.machine]
  have hseen := seen_wake hp script
  obtain ⟨hlt,-,hout⟩ | ⟨hle,-,hout⟩ :=
    Batch.drain_begin_cases e.machine paid script
  · have hgo : seen r = (m.run script ((passed + d.nanos) / timestep)).toOutcome.unmarked := by
      rw [← hsteps, hrun]
      exact hseen.trans (congrArg Outcome.unmarked hout)
    refine .inr ⟨fun hl => Nat.not_le_of_lt hlt (hlate.mp hl),hgo,fun hf => ?_⟩
    obtain ⟨hbt,hbn⟩ := bank_wake hp script hf
    refine ⟨hgo.symm.trans (seen_of_not_isSome hf),?_,?_⟩
    · rw [hbn, hpt, hpn, Nat.mod_add_mod]
    · rw [hbt, hpt]
  · have hcrash : r.2 = _ := congrArg Outcome.fault (hseen.trans (congrArg Outcome.unmarked hout))
    exact .inl ⟨hlate.mpr hle,hcrash⟩

/-- The wakes of an engine make up one run, unless one of them comes too late. -/
theorem wakes_cases (h : Reached m script timestep passed e) (ws : List Wake)
    (hfit : ∀ before w later, ws = before ++ w :: later →
      (passed + Wake.total before) % timestep + w.elapsed.nanos < nanosLimit) :
    let r := e.wakes script ws
    (Overruns m script timestep passed ws ∧ r.2 = some .engineCrashed) ∨
    (¬ Overruns m script timestep passed ws ∧
      seen r = (m.run script ((passed + Wake.total ws) / timestep)).toOutcome.unmarked) := by
  induction ws generalizing e passed with
  | nil =>
    refine .inr ⟨?_,h.machine.symm⟩
    rintro ⟨before,w,later,hnil,-⟩
    simp at hnil
  | cons w ws ih =>
    let next := (e.meet w).wake script w.elapsed
    have hcons : e.wakes script (w :: ws) =
      if next.2.isSome then next else next.1.wakes script ws := rfl
    have hmeet : Reached m script timestep passed (e.meet w) := ⟨h.machine,h.banked,h.timestep⟩
    have hhead : passed % timestep + w.elapsed.nanos < nanosLimit := hfit [] w ws rfl
    have htotal : passed + Wake.total (w :: ws) = passed + w.elapsed.nanos + Wake.total ws :=
      (Nat.add_assoc _ _ _).symm
    rw [overruns_cons_iff, htotal, hcons]
    obtain ⟨hlate,hcrash⟩ | ⟨hlate,hseen,hgo⟩ := wake_cases hmeet w.elapsed hhead
    · rw [if_pos (Option.isSome_of_eq_some hcrash)]
      exact .inl ⟨.inl hlate,hcrash⟩
    · rw [or_iff_right hlate]
      by_cases hf : next.2.isSome
      · -- the fault stops the one long run at the same step, so the later wakes are not missed
        have hrun : (m.run script ((passed + w.elapsed.nanos) / timestep)).fault.isSome :=
          (congrArg (·.fault.isSome) hseen).symm.trans hf
        have hle := Nat.div_le_div_right (c := timestep)
          (Nat.le_add_right (passed + w.elapsed.nanos) (Wake.total ws))
        rw [if_pos hf, Machine.toOutcome_run_of_fault hrun hle]
        exact .inr ⟨not_overruns_of_fault hrun ws,hseen⟩
      · rw [if_neg hf]
        refine ih (hgo hf) fun before v later hv => ?_
        have hlater := hfit (w :: before) v later (congrArg (w :: ·) hv)
        rwa [Wake.total_cons, ← Nat.add_assoc] at hlater

end Run

/-- An engine that has banked no time before wakes too late and crashes, or does what one run does. -/
theorem wakes_ofTimestep_cases (m : Machine) (timestep : Duration) (publisher : Publisher)
    (script : KeyScript) (ws : List Wake)
    (hfit : ∀ before w later, ws = before ++ w :: later →
      Wake.total before % max timestep.nanos 1 + w.elapsed.nanos < nanosLimit) :
    let r := wakes ⟨m,Accumulator.ofTimestep timestep,publisher⟩ script ws
    let nanos := max timestep.nanos 1
    let run := m.run script (Wake.total ws / nanos)
    (Overruns m script nanos 0 ws ∧ r.2 = some .engineCrashed) ∨
    (¬ Overruns m script nanos 0 ws ∧
      r.1.machine.frameTaken = run.machine.frameTaken ∧ r.2 = run.fault) := by
  intro r nanos run
  let e : Engine := ⟨m,Accumulator.ofTimestep timestep,publisher⟩
  have hlt : e.bank.banked.nanos < e.bank.timestep.nanos := e.bank.timestep_pos
  have hreached : Reached m script nanos 0 e := reached_of_banked_lt hlt script
  have hcases := wakes_cases hreached ws fun before w later hws => by
    rw [Nat.zero_add]
    exact hfit before w later hws
  rw [Nat.zero_add] at hcases
  refine hcases.imp_right fun ⟨hn,hseen⟩ => ⟨hn,?_,?_⟩
  · exact congrArg Outcome.machine hseen
  · exact congrArg Outcome.fault hseen

/-- Time that can be told can be banked, however it is cut. -/
theorem fits_of_total_lt {ws : List Wake} (h : Wake.total ws < nanosLimit) (nanos : Nat)
    (before : List Wake) (w : Wake) (later : List Wake) (hws : ws = before ++ w :: later) :
    Wake.total before % nanos + w.elapsed.nanos < nanosLimit := by
  have hmod := Nat.mod_le (Wake.total before) nanos
  rw [hws, Wake.total_append, Wake.total_cons] at h
  omega

/-- How time is cut into wakes does not show, unless a wake comes so late that the counter of its batch
overflows, which crashes the engine. Apart from that, whatever wakes an engine has and whatever the
renderer does in between, its machine comes to where one run comes that has a step for each timestep in
the time that has passed, and meets the same fault; the mark of a new picture is left out. Therefore two
series of wakes that take the same time agree. None comes too late if each comes before 2^32 timesteps
have passed since the one before it. -/
theorem wakes_eq_run (m : Machine) (timestep : Duration) (publisher : Publisher)
    (script : KeyScript) (ws : List Wake) (h : Wake.total ws < nanosLimit) :
    let nanos := max timestep.nanos 1
    let e : Engine := ⟨m,Accumulator.ofTimestep timestep,publisher⟩
    let run := m.run script (Wake.total ws / nanos)
    ((e.wakes script ws).2 = some .engineCrashed ↔ Overruns m script nanos 0 ws) ∧
    (¬ Overruns m script nanos 0 ws →
      ((e.wakes script ws).1.machine.frameTaken = run.machine.frameTaken ∧
        (e.wakes script ws).2 = run.fault) ∧
      ∀ publisher' ws', Wake.total ws' = Wake.total ws → ¬ Overruns m script nanos 0 ws' →
        let e' : Engine := ⟨m,Accumulator.ofTimestep timestep,publisher'⟩
        (e'.wakes script ws').1.machine.frameTaken = (e.wakes script ws).1.machine.frameTaken ∧
        (e'.wakes script ws').2 = (e.wakes script ws).2) ∧
    ((∀ w ∈ ws, w.elapsed.nanos ≤ (UInt32.size - 1) * nanos) → ¬ Overruns m script nanos 0 ws) := by
  intro nanos e run
  have hgo (p vs) (hv : Wake.total vs = Wake.total ws) (hn : ¬ Overruns m script nanos 0 vs) :
      let r := wakes ⟨m,Accumulator.ofTimestep timestep,p⟩ script vs
      r.1.machine.frameTaken = run.machine.frameTaken ∧ r.2 = run.fault := by
    have hcases := wakes_ofTimestep_cases m timestep p script vs (fits_of_total_lt (hv ▸ h) _)
    rw [hv] at hcases
    exact (hcases.resolve_left fun hl => hn hl.1).2
  refine ⟨⟨fun hcrash => ?_,fun hl => ?_⟩,fun hn => ⟨hgo publisher ws rfl hn,?_⟩,fun hws => ?_⟩
  · refine Classical.byContradiction fun hn => ?_
    exact m.fault_run_ne_engineCrashed script _ ((hgo publisher ws rfl hn).2.symm.trans hcrash)
  · have hcases := wakes_ofTimestep_cases m timestep publisher script ws (fits_of_total_lt h _)
    exact (hcases.resolve_right fun hn => hn.1 hl).2
  · intro publisher' ws' hws hn' e'
    obtain ⟨hm,hf⟩ := hgo publisher ws rfl hn
    obtain ⟨hm',hf'⟩ := hgo publisher' ws' hws hn'
    exact ⟨hm'.trans hm.symm,hf'.trans hf.symm⟩
  · exact not_overruns_of_elapsed_le (Nat.le_max_right _ _) hws m script 0

/-- Two wakes that each leave part of a timestep over, the second with nobody to take the picture;
the program clears the display and then fails. -/
theorem wakes_eq_run_of_late_fault :
    let m := Machine.holding [0x00,0xE0,0xE0,0x00]
    let timestep : Duration := ⟨10,by decide⟩
    let script := KeyScript.const Keypad.released
    let ws : List Wake := [⟨⟨15,by decide⟩,id⟩,⟨⟨7,by decide⟩,fun _ => Publisher.detached⟩]
    let e : Engine := ⟨m,Accumulator.ofTimestep timestep,Publisher.toChannel (some 1)⟩
    Wake.total ws < nanosLimit ∧ ¬ Overruns m script 10 0 ws ∧
    (e.wakes script ws).1.machine.frameTaken = (m.run script 2).machine.frameTaken ∧
    (e.wakes script ws).2 = some (.unknownOpcode 0xE000 0x202) := by
  intro m timestep script ws e
  have h : Wake.total ws < nanosLimit := by decide
  obtain ⟨-,hgo,hshort⟩ := wakes_eq_run m timestep (Publisher.toChannel (some 1)) script ws h
  have hn := hshort (by decide)
  obtain ⟨⟨hm,hf⟩,-⟩ := hgo hn
  have hsteps : Wake.total ws / max timestep.nanos 1 = 2 := by decide
  rw [hsteps] at hm hf
  have hrun : (m.run script 2).fault = some (.unknownOpcode 0xE000 0x202) := by decide +kernel
  exact ⟨h,hn,hm,hf.trans hrun⟩

/-- A step takes a nanosecond and the program loops. One wake after 4.4 seconds crashes the engine, and
two wakes of half that time do not. -/
theorem wakes_differ_of_long_wake :
    let m := Machine.holding [0x12,0x00]
    let script := KeyScript.const Keypad.released
    let e : Engine := ⟨m,Accumulator.ofTimestep ⟨1,by decide⟩,Publisher.detached⟩
    let whole : List Wake := [⟨⟨4400000000,by decide⟩,id⟩]
    let halves : List Wake := [⟨⟨2200000000,by decide⟩,id⟩,⟨⟨2200000000,by decide⟩,id⟩]
    Wake.total whole = 4400000000 ∧ Wake.total halves = 4400000000 ∧
    (e.wakes script whole).2 = some .engineCrashed ∧ (e.wakes script halves).2 = none ∧
    (m.run script 4400000000).fault = none := by
  intro m script e whole halves
  have hruns (n : Nat) : (m.run script n).fault = none :=
    Machine.run_of_step_eq_self Machine.step_endless_loop script n
  have hcases (ws) (h : Wake.total ws < nanosLimit) :=
    wakes_ofTimestep_cases m ⟨1,by decide⟩ Publisher.detached script ws (fits_of_total_lt h _)
  have hlate : Overruns m script 1 0 whole := ⟨[],whole[0],[],rfl,by decide,hruns _⟩
  have hshort : ¬ Overruns m script 1 0 halves :=
    not_overruns_of_elapsed_le Nat.one_pos (by decide) m script 0
  refine ⟨rfl,rfl,?_,?_,hruns _⟩
  · exact ((hcases whole (by decide)).resolve_right fun hn => hn.1 hlate).2
  · obtain ⟨-,-,hfault⟩ := (hcases halves (by decide)).resolve_left fun hl => hshort hl.1
    rw [hfault]
    exact hruns _

end Engine
end Chip8
