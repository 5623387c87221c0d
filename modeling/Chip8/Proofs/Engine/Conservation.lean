import Chip8.Proofs.Duration
import Chip8.Proofs.Engine.Batching
import Chip8.Proofs.History

/-! No time gets lost in an accumulator, whatever it is asked for and in whatever order: the time that
it has accepted is the time that it has paid out and the time that it holds, to the nanosecond. It
fails only where it has to, and is unchanged then; and it pays for as many timesteps as it holds. A
history lists the calls, the latest first. -/
namespace Chip8

namespace Accumulator

inductive Call where
  | bank (elapsed : Duration)
  | pay
  deriving DecidableEq

/-- The time that calls bring, in nanoseconds. -/
def Call.total : List Call → Nat
  | [] => 0
  | .bank elapsed :: calls => elapsed.nanos + total calls
  | .pay :: calls => total calls

def call? (a : Accumulator) : Call → Option Accumulator
  | .bank elapsed => a.bank? elapsed
  | .pay => a.pay?

/-- The accumulator after a call, which changes nothing if it fails. -/
def called (a : Accumulator) (c : Call) : Accumulator := (a.call? c).getD a

def after (a : Accumulator) (past : List Call) : Accumulator := History.after called a past

theorem after_cons (a : Accumulator) (c : Call) (past : List Call) :
    a.after (c :: past) = (a.after past).called c := rfl

/-- The calls that do not fail. -/
def successes (a : Accumulator) : List Call → List Call
  | [] => []
  | c :: past =>
    if ((a.after past).call? c).isSome then c :: a.successes past else a.successes past

/-- The time of all calls that have banked it, in nanoseconds. -/
def accepted (a : Accumulator) (calls : List Call) : Nat := Call.total (a.successes calls)

/-- How many timesteps have been paid out. -/
def payments (a : Accumulator) (calls : List Call) : Nat := (a.successes calls).count .pay

theorem bank?_eq_some {a b : Accumulator} {d : Duration} (h : a.bank? d = some b) :
    b.timestep = a.timestep ∧ b.banked.nanos = a.banked.nanos + d.nanos := by
  have hlt : a.banked.nanos + d.nanos < nanosLimit := by
    refine Nat.lt_of_not_le fun hle => ?_
    simp [(a.bank?_eq_none_iff d).mpr hle] at h
  obtain ⟨b',hb,ht,hn⟩ := a.exists_bank? d hlt
  obtain rfl := Option.some.inj (hb.symm.trans h)
  exact ⟨ht,hn⟩

theorem timestep_called (a : Accumulator) (c : Call) : (a.called c).timestep = a.timestep := by
  unfold called
  cases h : a.call? c with
  | none => rfl
  | some b =>
    cases c with
    | bank d => exact (bank?_eq_some h).1
    | pay => exact (pay?_eq_some h).1

theorem timestep_after (a : Accumulator) (calls : List Call) :
    (a.after calls).timestep = a.timestep :=
  History.after_induction (P := (·.timestep = a.timestep)) rfl
    (fun b c hb => (timestep_called b c).trans hb) calls

/-- What was there at the beginning and what was accepted since are what was paid out and what is
there now. -/
theorem banked_after (a : Accumulator) (calls : List Call) :
    a.banked.nanos + a.accepted calls =
      a.timestep.nanos * a.payments calls + (a.after calls).banked.nanos := by
  induction calls with
  | nil => simp [accepted, payments, successes, after, History.after, Call.total]
  | cons c past ih =>
    simp only [accepted, payments, successes, after_cons, called] at ih ⊢
    cases h : (a.after past).call? c with
    | none => simpa using ih
    | some b =>
      cases c with
      | bank d =>
        have hb := (bank?_eq_some h).2
        simp [Call.total, hb]
        omega
      | pay =>
        obtain ⟨-,hb,-⟩ := pay?_eq_some h
        rw [timestep_after] at hb
        simp [Call.total, Nat.mul_add]
        omega

/-- Takes timesteps out of the bank until there are none left, and counts them. -/
def payAll (a : Accumulator) : Accumulator × Nat :=
  match _h : a.pay? with
  | none => (a,0)
  | some rest =>
    let paid := rest.payAll
    (paid.1,paid.2+1)
termination_by a.banked.nanos
decreasing_by exact nanos_pay?_lt _h

theorem payAll_of_none {a : Accumulator} (h : a.pay? = none) : a.payAll = (a,0) := by
  rw [payAll]
  split
  · rfl
  · simp_all

theorem payAll_of_some {a rest : Accumulator} (h : a.pay? = some rest) :
    a.payAll = (rest.payAll.1,rest.payAll.2+1) := by
  rw [payAll]
  split
  · simp_all
  · rename_i rest' h'
    obtain rfl : rest' = rest := Option.some.inj (h'.symm.trans h)
    rfl

/-- A bank that is emptied has paid for the timesteps that it held, and keeps what is over. -/
theorem payAll_spec (a : Accumulator) :
    a.payAll.2 = a.steps ∧ a.payAll.1.timestep = a.timestep ∧
    a.payAll.1.banked.nanos = a.banked.nanos % a.timestep.nanos := by
  induction a using payAll.induct with
  | case1 a hp =>
    have hlt := a.pay?_eq_none_iff.mp hp
    rw [payAll_of_none hp]
    exact ⟨(Nat.div_eq_of_lt hlt).symm,rfl,(Nat.mod_eq_of_lt hlt).symm⟩
  | case2 a rest hp ih =>
    obtain ⟨ht,hn,hs⟩ := pay?_eq_some hp
    obtain ⟨hc,hct,hcn⟩ := ih
    rw [payAll_of_some hp]
    refine ⟨by rw [hs, hc],hct.trans ht,?_⟩
    rw [hcn, ht, hn, Nat.add_mod_right]

theorem payUpToFrom_spec (a : Accumulator) (taken max : Nat) :
    (a.payUpToFrom taken max).2 = taken + min max a.steps ∧
    (a.payUpToFrom taken max).1.banked.nanos + a.timestep.nanos * min max a.steps =
      a.banked.nanos := by
  induction max generalizing a taken with
  | zero => simp [payUpToFrom]
  | succ max ih =>
    rw [payUpToFrom]
    split
    · rename_i hp
      have hz : a.steps = 0 := Nat.div_eq_of_lt (a.pay?_eq_none_iff.mp hp)
      simp [hz]
    · rename_i rest hp
      obtain ⟨ht,hn,hs⟩ := pay?_eq_some hp
      obtain ⟨hc,hr⟩ := ih rest (taken+1)
      rw [ht] at hr
      rw [hs, Nat.add_min_add_right, hc, Nat.mul_add_one]
      omega

end Accumulator

/-- A batch without a fault runs as many steps as the bank holds timesteps. -/
theorem Batch.steps_drain (m : Machine) (bank : Accumulator) (script : KeyScript)
    (h : ¬ ((begin m bank).drain script).fault.isSome) :
    ((begin m bank).drain script).steps = bank.steps := by
  obtain ⟨-,hcount,hout⟩ | ⟨-,-,hout⟩ := drain_begin_cases m bank script
  · have hfault := congrArg Outcome.fault hout
    have hrun := hfault.symm.trans (Option.not_isSome_iff_eq_none.mp h)
    rw [steps, Bool.eq_false_iff.mpr h, hcount, Machine.successes_of_fault_eq_none hrun]
    rfl
  · rw [hout] at h
    exact absurd rfl h

namespace Accumulator

theorem isSome_pay?_iff (a : Accumulator) : a.pay?.isSome ↔ a.timestep.nanos ≤ a.banked.nanos := by
  rw [Option.isSome_iff_ne_none, ne_eq, pay?_eq_none_iff, Nat.not_lt]

theorem isSome_bank?_iff (a : Accumulator) (d : Duration) :
    (a.bank? d).isSome ↔
      a.banked.nanos + d.nanos ≤ (UInt64.size - 1) * nanosPerSecond + 999999999 := by
  rw [Option.isSome_iff_ne_none, ne_eq, bank?_eq_none_iff, Nat.not_le]
  exact Nat.lt_succ_iff

theorem called_eq_self {a : Accumulator} {c : Call} (h : ¬ (a.call? c).isSome) : a.called c = a := by
  rw [called, Option.not_isSome_iff_eq_none.mp h]
  rfl

/-- Whatever is banked and paid out, what has been accepted is what has been paid out and what is
left, in seconds and nanoseconds. Paying fails only if there is less than a timestep, banking only if
the sum would be too long to be told, and failing changes nothing; the sums and differences are those
of the machine words with their carries and borrows. Emptying the bank, with or without a bound, or
by a batch that meets no fault, pays for as many timesteps as the bank holds. -/
theorem conserves_time :
    (∀ (timestep : Duration) (calls : List Call),
      let start := ofTimestep timestep
      let a := start.after calls
      a.timestep.nanos = max timestep.nanos 1 ∧
      start.accepted calls = max timestep.nanos 1 * start.payments calls +
        (a.banked.secs * nanosPerSecond + a.banked.subsecNanos) ∧
      a.banked.subsecNanos < nanosPerSecond) ∧
    ∀ a : Accumulator,
      ((a.pay?.isSome ↔ a.timestep.nanos ≤ a.banked.nanos) ∧
        (a.banked.nanos < a.timestep.nanos → a.called .pay = a) ∧
        a.pay?.map (·.banked.parts) = a.banked.parts.sub? a.timestep.parts) ∧
      (∀ d : Duration,
        let longest := (UInt64.size - 1) * nanosPerSecond + 999999999
        ((a.bank? d).isSome ↔ a.banked.nanos + d.nanos ≤ longest) ∧
        (longest < a.banked.nanos + d.nanos → a.called (.bank d) = a) ∧
        (a.bank? d).map (·.banked.parts) = a.banked.parts.add? d.parts) ∧
      (∀ max, (a.payUpTo max).2 = min max (a.banked.nanos / a.timestep.nanos) ∧
        (a.payUpTo max).1.banked.nanos + a.timestep.nanos * (a.payUpTo max).2 = a.banked.nanos) ∧
      (a.payAll.2 = a.banked.nanos / a.timestep.nanos ∧ a.payAll.1.pay? = none) ∧
      ∀ m script, ¬ ((Batch.begin m a).drain script).fault.isSome →
        ((Batch.begin m a).drain script).steps = a.banked.nanos / a.timestep.nanos := by
  refine ⟨?_,fun a => ⟨⟨a.isSome_pay?_iff,?_,?_⟩,fun d => ⟨a.isSome_bank?_iff d,?_,?_⟩,?_,?_,?_⟩⟩
  · intro timestep calls start a
    have ht : a.timestep = start.timestep := timestep_after start calls
    have hb := banked_after start calls
    refine ⟨congrArg Duration.nanos ht,?_,a.banked.subsecNanos_lt⟩
    have hz : start.banked.nanos = 0 := rfl
    rw [Duration.secs, Duration.subsecNanos, Nat.div_add_mod', ← Nat.zero_add (start.accepted calls),
      ← hz, hb]
    rfl
  · intro hlt
    exact called_eq_self (c := .pay) (mt a.isSome_pay?_iff.mp (Nat.not_le_of_lt hlt))
  · rw [← Duration.parts_sub?, pay?, Option.map_map]
    rfl
  · intro hlt
    exact called_eq_self (c := .bank d) (mt (a.isSome_bank?_iff d).mp (Nat.not_le_of_lt hlt))
  · rw [← Duration.parts_add?, bank?, Option.map_map]
    rfl
  · intro max
    obtain ⟨hc,hr⟩ := a.payUpToFrom_spec 0 max
    rw [Nat.zero_add] at hc
    rw [← hc] at hr
    exact ⟨hc,hr⟩
  · obtain ⟨hc,ht,hn⟩ := a.payAll_spec
    refine ⟨hc,a.payAll.1.pay?_eq_none_iff.mpr ?_⟩
    rw [ht, hn]
    exact Nat.mod_lt _ a.timestep_pos
  · intro m script h
    exact Batch.steps_drain m a script h

/-- Timesteps of zero, which count as a nanosecond. The first payment finds nothing; of three
nanoseconds that are banked one is paid out, and then the longest time there is does not fit. A
program that loops runs for the other two. -/
theorem conserves_time_of_full_bank :
    let start := ofTimestep Duration.zero
    let longest : Duration := ⟨nanosLimit-1,by decide⟩
    let calls : List Call := [.bank longest,.pay,.bank ⟨3,by decide⟩,.pay]
    let a := start.after calls
    let m := Machine.holding [0x12,0x00]
    let loop := (Batch.begin m a).drain (KeyScript.const Keypad.released)
    start.accepted calls = 3 ∧ 3 = max Duration.zero.nanos 1 * start.payments calls + 2 ∧
    start.called .pay = start ∧ a.called (.bank longest) = a ∧
    ¬ loop.fault.isSome ∧ loop.steps = 2 := by
  intro start longest calls a m loop
  have ha : start.accepted calls = 3 := by decide +kernel
  have hleft : a.banked.secs * nanosPerSecond + a.banked.subsecNanos = 2 := by decide +kernel
  have hsteps : a.banked.nanos / a.timestep.nanos = 2 := by decide +kernel
  have hf : ¬ loop.fault.isSome := by
    have hd : loop.toOutcome = _ := Batch.toOutcome_drain m a _ (by decide +kernel)
    rw [show loop.fault = loop.toOutcome.fault from rfl, hd]
    decide +kernel
  obtain ⟨hbooks,hevery⟩ := conserves_time
  obtain ⟨-,haccepted,-⟩ := hbooks Duration.zero calls
  obtain ⟨⟨-,hpay,-⟩,-⟩ := hevery start
  obtain ⟨-,hbank,-,-,hloop⟩ := hevery a
  refine ⟨ha,?_,hpay (by decide +kernel),(hbank longest).2.1 (by decide +kernel),hf,?_⟩
  · rw [← ha, haccepted, hleft]
  · rw [← hsteps]
    exact hloop m _ hf

end Accumulator
end Chip8
