import Chip8.Config
import Chip8.Proofs.Engine.Conservation

/-! The rate that is configured is the rate at which an engine runs. The time per step is rounded down
to whole nanoseconds, so that an engine gets ahead of its rate as time goes by and never falls behind;
how far ahead depends on the time alone and not on how it was cut into wakes. -/
namespace Chip8

namespace Accumulator

/-- Banks one length of time after the other, empties the bank after each, and counts the timesteps
that are paid out; none if some length of time cannot be banked. -/
def payout? (a : Accumulator) : List Duration → Option Nat
  | [] => some 0
  | d :: ds =>
    (a.bank? d).bind fun paid => (paid.payAll.1.payout? ds).map (paid.payAll.2 + ·)

/-- Some length of time does not fit into the bank on top of what those before it have left. -/
def Overflows (a : Accumulator) (ds : List Duration) : Prop :=
  ∃ before d later, ds = before ++ d :: later ∧
    nanosLimit ≤ (a.banked.nanos + Duration.total before) % a.timestep.nanos + d.nanos

theorem not_overflows_of_total_lt {a : Accumulator} {ds : List Duration}
    (h : a.banked.nanos + Duration.total ds < nanosLimit) : ¬ a.Overflows ds := by
  rintro ⟨before,d,later,rfl,hle⟩
  have hmod := Nat.mod_le (a.banked.nanos + Duration.total before) a.timestep.nanos
  rw [Duration.total_append, Duration.total] at h
  omega

theorem nanos_payAll_bank {a paid : Accumulator} {d : Duration} (h : a.bank? d = some paid) :
    paid.payAll.1.timestep = a.timestep ∧
    paid.payAll.1.banked.nanos = (a.banked.nanos + d.nanos) % a.timestep.nanos := by
  obtain ⟨ht,hn⟩ := bank?_eq_some h
  obtain ⟨-,hrt,hrn⟩ := paid.payAll_spec
  exact ⟨hrt.trans ht,by rw [hrn, ht, hn]⟩

theorem overflows_cons_iff {a paid : Accumulator} {d : Duration}
    (hb : a.banked.nanos < a.timestep.nanos) (h : a.bank? d = some paid) (ds : List Duration) :
    a.Overflows (d :: ds) ↔ paid.payAll.1.Overflows ds := by
  obtain ⟨ht,hn⟩ := nanos_payAll_bank h
  have hsame : ∀ before : List Duration,
      (paid.payAll.1.banked.nanos + Duration.total before) % paid.payAll.1.timestep.nanos =
        (a.banked.nanos + Duration.total (d :: before)) % a.timestep.nanos := by
    intro before
    rw [hn, ht, Nat.mod_add_mod, Nat.add_assoc]
    rfl
  constructor
  · rintro ⟨before,e,later,hds,hle⟩
    cases before with
    | nil =>
      -- the first length of time has been banked, so it is a later one that does not fit
      obtain ⟨rfl,-⟩ := List.cons.inj hds
      have hlimit : nanosLimit ≤ a.banked.nanos + d.nanos := by
        simpa [Duration.total, Nat.mod_eq_of_lt hb] using hle
      simp [(a.bank?_eq_none_iff d).mpr hlimit] at h
    | cons c before =>
      obtain ⟨rfl,rfl⟩ := List.cons.inj hds
      exact ⟨before,e,later,rfl,by rwa [hsame]⟩
  · rintro ⟨before,e,later,rfl,hle⟩
    exact ⟨d :: before,e,later,rfl,by rwa [← hsame]⟩

/-- Nothing but an overflow keeps the time from being paid out, and then all of it is. -/
theorem payout?_cases (a : Accumulator) (ds : List Duration)
    (hb : a.banked.nanos < a.timestep.nanos) :
    (a.Overflows ds ∧ a.payout? ds = none) ∨
    (¬ a.Overflows ds ∧
      a.payout? ds = some ((a.banked.nanos + Duration.total ds) / a.timestep.nanos)) := by
  induction ds generalizing a with
  | nil =>
    refine Or.inr ⟨?_,congrArg some (Nat.div_eq_of_lt hb).symm⟩
    rintro ⟨before,d,later,hnil,-⟩
    simp at hnil
  | cons d ds ih =>
    cases hd : a.bank? d with
    | none =>
      have hle := (a.bank?_eq_none_iff d).mp hd
      refine Or.inl ⟨⟨[],d,ds,rfl,?_⟩,by rw [payout?, hd]; rfl⟩
      simpa [Duration.total, Nat.mod_eq_of_lt hb] using hle
    | some paid =>
      obtain ⟨ht,hn⟩ := bank?_eq_some hd
      obtain ⟨hrt,hrn⟩ := nanos_payAll_bank hd
      have hlt : paid.payAll.1.banked.nanos < paid.payAll.1.timestep.nanos := by
        rw [hrn, hrt]
        exact Nat.mod_lt _ a.timestep_pos
      have hpay : a.payout? (d :: ds) = (paid.payAll.1.payout? ds).map (paid.payAll.2 + ·) := by
        rw [payout?, hd]
        rfl
      rw [overflows_cons_iff hb hd, hpay]
      obtain ⟨ho,hp⟩ | ⟨ho,hp⟩ := ih paid.payAll.1 hlt
      · exact Or.inl ⟨ho,by rw [hp]; rfl⟩
      · refine Or.inr ⟨ho,?_⟩
        have hdiv := add_div_of_pos a.timestep_pos (a.banked.nanos + d.nanos) (Duration.total ds)
        rw [Nat.add_assoc] at hdiv
        rw [hp, hrn, hrt, Option.map_some, paid.payAll_spec.1, steps, hn, ht]
        exact congrArg some hdiv.symm

end Accumulator

/-- What rounding keeps from a quotient comes back on top when it divides in turn. -/
theorem mul_div_rounded {n h : Nat} (hpos : 0 < n / h) (s : Nat) :
    s * n / (n / h) = h * s + s * (n % h) / (n / h) :=
  have hsplit : s * n = n / h * (h * s) + s * (n % h) :=
    calc
      s * n = s * (h * (n / h) + n % h) := by rw [Nat.div_add_mod]
      _ = s * (h * (n / h)) + s * (n % h) := Nat.mul_add _ _ _
      _ = n / h * (h * s) + s * (n % h) := by ac_rfl
  calc
    s * n / (n / h) = (n / h * (h * s) + s * (n % h)) / (n / h) := congrArg (· / (n / h)) hsplit
    _ = h * s + s * (n % h) / (n / h) := Nat.mul_add_div hpos _ _

namespace Config

/-- The steps in `s` seconds at `hz` steps a second. The time per step is a whole number of
nanoseconds, rounded down but at least one; a rate of zero counts as one. -/
def stepsIn (hz : UInt32) (s : Nat) : Nat :=
  if hz = 0 then s
  else if nanosPerSecond < hz.toNat then s * nanosPerSecond
  else hz.toNat * s + s * (nanosPerSecond % hz.toNat) / (nanosPerSecond / hz.toNat)

theorem seconds_div_timestep (hz : UInt32) (s : Nat) :
    s * nanosPerSecond / (Accumulator.ofTimestep (timestepFor hz)).timestep.nanos =
      stepsIn hz s := by
  change s * nanosPerSecond / max (nanosPerSecond / max hz.toNat 1) 1 = stepsIn hz s
  unfold stepsIn
  split
  · rename_i hz0
    rw [hz0]
    exact Nat.mul_div_cancel s (by decide)
  · rename_i hz0
    have hpos : 0 < hz.toNat := Nat.pos_of_ne_zero fun h => hz0 (UInt32.toNat_inj.mp h)
    rw [Nat.max_eq_left hpos]
    split
    · rename_i hfast
      rw [Nat.div_eq_of_lt hfast]
      exact Nat.div_one _
    · rename_i hslow
      have hq : 0 < nanosPerSecond / hz.toNat := Nat.div_pos (Nat.le_of_not_lt hslow) hpos
      rw [Nat.max_eq_left hq, mul_div_rounded hq]

theorem le_stepsIn {hz : UInt32} (hpos : 0 < hz.toNat) (hle : hz.toNat ≤ nanosPerSecond) (s : Nat) :
    hz.toNat * s ≤ stepsIn hz s := by
  have hz0 : hz ≠ 0 := fun h => Nat.ne_of_gt hpos (congrArg UInt32.toNat h)
  rw [stepsIn, if_neg hz0, if_neg (Nat.not_lt_of_le hle)]
  exact Nat.le_add_right _ _

/-- At every rate, however the seconds are cut into lengths of time, the bank pays out the steps of so
many seconds; at up to a step per nanosecond they are no fewer than the rate calls for. Only a length of
time that overflows the bank can come in between, and within the seconds that a length of time can tell
there is none. An engine that wakes after each length of time, and never so late that the counter of its
batch overflows, runs these steps. -/
theorem payout_of_rate (hz : UInt32) (s : Nat) (ds : List Duration)
    (h : Duration.total ds = s * nanosPerSecond) :
    let a := Accumulator.ofTimestep (standard.withInstructionsPerSecond hz).timestep
    (¬ a.Overflows ds → a.payout? ds = some (stepsIn hz s)) ∧
    (a.payout? ds = none ↔ a.Overflows ds) ∧
    (s < UInt64.size → ¬ a.Overflows ds) ∧
    (1 ≤ hz.toNat → hz.toNat ≤ nanosPerSecond → hz.toNat * s ≤ stepsIn hz s) ∧
    ∀ m publisher script ws, ws.map Wake.elapsed = ds → ¬ a.Overflows ds →
      ¬ Engine.Overruns m script a.timestep.nanos 0 ws →
      let e : Engine := ⟨m,a,publisher⟩
      let run := m.run script (stepsIn hz s)
      (e.wakes script ws).1.machine.frameTaken = run.machine.frameTaken ∧
      (e.wakes script ws).2 = run.fault := by
  intro a
  have hz0 : a.banked.nanos + Duration.total ds = s * nanosPerSecond := (Nat.zero_add _).trans h
  have hsteps : s * nanosPerSecond / a.timestep.nanos = stepsIn hz s := seconds_div_timestep hz s
  have hcases := a.payout?_cases ds a.timestep_pos
  rw [hz0, hsteps] at hcases
  refine ⟨fun hn => (hcases.resolve_left fun ho => hn ho.1).2,?_,?_,
    fun hpos hle => le_stepsIn hpos hle s,?_⟩
  · refine ⟨fun hnone => ?_,fun ho => (hcases.resolve_right fun hn => hn.1 ho).2⟩
    obtain ⟨ho,-⟩ | ⟨-,hp⟩ := hcases
    · exact ho
    · simp [hp] at hnone
  · intro hs
    refine Accumulator.not_overflows_of_total_lt ?_
    rw [hz0]
    exact Nat.mul_lt_mul_of_pos_right hs (by decide)
  · rintro m publisher script ws rfl hfit hn e run
    have hsteps : Wake.total ws / max (timestepFor hz).nanos 1 = stepsIn hz s :=
      (congrArg (· / a.timestep.nanos) h).trans hsteps
    have hwakes := Engine.wakes_ofTimestep_cases m (timestepFor hz) publisher script ws ?_
    · dsimp only at hwakes
      rw [hsteps] at hwakes
      exact (hwakes.resolve_left fun hl => hn hl.1).2
    · rintro before w later rfl
      refine Nat.lt_of_not_le fun hle => hfit ⟨before.map Wake.elapsed,w.elapsed,_,List.map_append,?_⟩
      have hzero : a.banked.nanos = 0 := rfl
      rw [hzero, Nat.zero_add]
      exact hle

/-- A step takes three nanoseconds instead of three and a third, which makes two seconds, cut into
one and a half and a half, longer by a good 66 million steps. -/
theorem payout_of_rate_of_rounded_timestep :
    let hz : UInt32 := 300000000
    let ds : List Duration := [⟨1500000000,by decide⟩,⟨500000000,by decide⟩]
    let ws : List Wake := ds.map fun d => ⟨d,id⟩
    let a := Accumulator.ofTimestep (standard.withInstructionsPerSecond hz).timestep
    let m := Machine.holding [0xE0,0x00]
    let script := KeyScript.const Keypad.released
    Duration.total ds = 2 * nanosPerSecond ∧ ¬ a.Overflows ds ∧
    a.payout? ds = some 666666666 ∧ hz.toNat * 2 ≤ 666666666 ∧
    ¬ Engine.Overruns m script a.timestep.nanos 0 ws ∧
    ((⟨m,a,Publisher.detached⟩ : Engine).wakes script ws).2 = some (.unknownOpcode 0xE000 0x200) := by
  intro hz ds ws a m script
  have h : Duration.total ds = 2 * nanosPerSecond := by decide
  have hsteps : stepsIn hz 2 = 666666666 := by decide
  obtain ⟨hpay,-,hfits,hle,hrun⟩ := payout_of_rate hz 2 ds h
  rw [hsteps] at hpay hle hrun
  have hn : ¬ a.Overflows ds := hfits (by decide)
  have hshort : ¬ Engine.Overruns m script a.timestep.nanos 0 ws :=
    Engine.not_overruns_of_elapsed_le a.timestep_pos (by decide) m script 0
  have hf : (m.run script 666666666).fault = some (.unknownOpcode 0xE000 0x200) := by
    decide +kernel
  refine ⟨h,hn,hpay hn,hle (by decide) (by decide),hshort,?_⟩
  exact (hrun m Publisher.detached script ws rfl hn hshort).2.trans hf

/-- Lengths of time that come to whole seconds without being paid out: after half a second, which is
too short for a step, the longest length of time there is does not fit into the bank. -/
theorem not_payout_of_rate_of_longest :
    let s := UInt64.size + 1
    let ds : List Duration :=
      [⟨500000000,by decide⟩,⟨nanosLimit-1,by decide⟩,⟨500000001,by decide⟩]
    let a := Accumulator.ofTimestep (standard.withInstructionsPerSecond 1).timestep
    Duration.total ds = s * nanosPerSecond ∧ a.payout? ds = none ∧
    a.payout? ds ≠ some (stepsIn 1 s) := by
  intro s ds a
  have ho : a.Overflows ds := ⟨[ds[0]],ds[1],[ds[2]],rfl,by decide⟩
  have hnone : a.payout? ds = none :=
    ((a.payout?_cases ds a.timestep_pos).resolve_right fun hn => hn.1 ho).2
  exact ⟨by decide,hnone,by simp [hnone]⟩

end Config
end Chip8
