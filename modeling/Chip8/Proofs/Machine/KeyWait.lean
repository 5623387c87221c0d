import Chip8.Proofs.Machine.Surroundings
import Mathlib.Order.BooleanAlgebra.Set
import Mathlib.Order.Bounds.Basic

/-! Waits for a key. A wait is pending exactly while the last step was a poll that found no key newly
down, and then the machine stands at the waiting instruction; so no other instruction ever meets a
pending wait. -/
namespace Chip8
open Outcome (ok)

namespace Keypad

/-- The numbers of the keys that are down. -/
def down (k : Keypad) : Set Nat := {b | k.mask.toNat.testBit b = true}

/-- There are no keys above fifteen. -/
theorem lt_of_mem_down {k : Keypad} {b : Nat} (h : b ∈ k.down) : b < 16 := by
  rw [← Nat.not_le]
  intro hle
  have hpow : 2^16 ≤ 2^b := Nat.pow_le_pow_right (by decide) hle
  have hb := Nat.testBit_lt_two_pow (Nat.lt_of_lt_of_le k.mask.toNat_lt hpow)
  exact Bool.false_ne_true (hb.symm.trans h)

theorem isDown_eq_true_iff {k : Keypad} {key : UInt8} (h : key.toNat < 16) :
    k.isDown key = true ↔ key.toNat ∈ k.down := by
  rw [isDown_eq_testBit, Nat.mod_eq_of_lt h]
  exact Iff.rfl

/-- The keys that went down are the ones that are down now and were not before. -/
theorem down_since (k previous : Keypad) : (k.since previous).down = k.down \ previous.down := by
  ext b
  by_cases hb : b < 16
  · rw [down, Set.mem_ofPred_eq, since, UInt16.toNat_and, Nat.testBit_and, testBit_not _ hb]
    simp [down]
  · constructor
    · intro h
      exact absurd (lt_of_mem_down h) hb
    · intro h
      exact absurd (lt_of_mem_down h.1) hb

/-- Of a single bit only its own key is down. -/
theorem down_bit (key : UInt8) : (mk (bit key)).down = {key.toNat % 16} := by
  ext b
  simp [down, testBit_bit, eq_comm]

theorem lowest?_eq_none {k : Keypad} (h : k.down = ∅) : k.lowest? = none := by
  rw [lowest?, Option.map_eq_none_iff, List.find?_eq_none]
  intro b _ hb
  exact Set.eq_empty_iff_forall_notMem.mp h b hb

theorem exists_lowest? {k : Keypad} (h : k.down.Nonempty) :
    ∃ key, k.lowest? = some key ∧ IsLeast k.down key.toNat := by
  obtain ⟨c,hc⟩ := h
  cases hf : (List.range 16).find? k.mask.toNat.testBit with
  | none => exact absurd hc (List.find?_eq_none.mp hf c (List.mem_range.mpr (lt_of_mem_down hc)))
  | some b =>
    obtain ⟨hb,-,hlow⟩ := List.find?_range_eq_some.mp hf
    have hn : (UInt8.ofNat b).toNat = b := by
      rw [UInt8.toNat_ofNat']
      exact Nat.mod_eq_of_lt (Nat.lt_trans (lt_of_mem_down hb) (by decide))
    refine ⟨UInt8.ofNat b,by rw [lowest?, hf, Option.map_some],?_,?_⟩
    · rwa [hn]
    · intro c hc
      rw [hn, ← Nat.not_lt]
      intro hcb
      have hup : k.mask.toNat.testBit c = false := by simpa using hlow c hcb
      exact Bool.false_ne_true (hup.symm.trans hc)

end Keypad

namespace KeyScript

def drop (s : KeyScript) (k : Nat) : KeyScript := fun j => s (k+j)

/-- The keys that poll `j` of a wait finds down and the poll before found up. The first poll only
looks. -/
def newlyDown (s : KeyScript) : Nat → Set Nat
  | 0 => ∅
  | j+1 => (s (j+1)).down \ (s j).down

end KeyScript

namespace Machine

/-- The keys that a poll finds down and the poll before found up. A first poll only looks. -/
def newKeys (m : Machine) (keys : Keypad) : Set Nat :=
  match m.keyWait with
  | none => ∅
  | some previous => keys.down \ previous.down

theorem down_since_keyWait (m : Machine) (keys : Keypad) :
    (keys.since (m.keyWait.getD keys)).down = m.newKeys keys := by
  rw [newKeys, Keypad.down_since]
  cases m.keyWait with
  | none => exact Set.sdiff_self
  | some previous => rfl

/-- The next step polls for `Vx` and finds no key newly down. -/
def PollsInVain (m : Machine) (x : UInt8) (keys : Keypad) : Prop :=
  m.instruction = .waitKey x ∧ m.newKeys keys = ∅

/-- A poll in vain leaves all but the pending wait as it was. -/
theorem step_of_pollsInVain {m : Machine} {x : UInt8} {keys : Keypad} (h : m.PollsInVain x keys) :
    m.step keys = ok { m with keyWait := some keys, polls := m.polls+1 } := by
  obtain ⟨hi,hv⟩ := h
  have hpc : m.pc + m.pcStep.bytes - m.pcStep.bytes = m.pc := UInt16.add_sub_cancel _ _
  have hlow : (keys.since (m.keyWait.getD keys)).lowest? = none :=
    Keypad.lowest?_eq_none ((m.down_since_keyWait keys).trans hv)
  rw [step_of_instruction hi]
  simp only [execute, awaitKey, polled, advance, rewind, hlow, hpc]

/-- A poll that is not in vain ends the wait with the lowest of the keys that went down. -/
theorem step_of_key {m : Machine} {x : UInt8} {keys : Keypad} (hi : m.instruction = .waitKey x)
    (hv : (m.newKeys keys).Nonempty) :
    ∃ key, IsLeast (m.newKeys keys) key.toNat ∧
      m.step keys = ok { m with
        pc := m.pc + m.pcStep.bytes
        registers := m.registers.set x key
        keyWait := none
        polls := m.polls+1 } := by
  rw [← down_since_keyWait] at hv ⊢
  obtain ⟨key,hkey,hlow⟩ := Keypad.exists_lowest? hv
  refine ⟨key,hlow,?_⟩
  rw [step_of_instruction hi]
  simp only [execute, awaitKey, polled, advance, hkey]

/-- A machine with a pending wait stands at the waiting instruction. -/
def WaitsInPlace (m : Machine) : Prop := m.keyWait.isSome → ∃ x, m.instruction = .waitKey x

/-- A step leaves a wait pending exactly if it is a poll in vain, which then is the latest one. -/
theorem keyWait_step {m : Machine} (h : m.WaitsInPlace) (keys p : Keypad) :
    (m.step keys).machine.keyWait = some p ↔ (∃ x, m.PollsInVain x keys) ∧ p = keys := by
  by_cases hi : ∃ x, m.instruction = .waitKey x
  · obtain ⟨x,hi⟩ := hi
    obtain hv | hv := (m.newKeys keys).eq_empty_or_nonempty
    · have hp : m.PollsInVain x keys := ⟨hi,hv⟩
      rw [step_of_pollsInVain hp]
      constructor
      · intro hk
        exact ⟨⟨x,hp⟩,(Option.some.inj hk).symm⟩
      · rintro ⟨-,rfl⟩
        rfl
    · obtain ⟨key,-,hs⟩ := step_of_key hi hv
      rw [hs]
      constructor
      · intro hk
        cases hk
      · rintro ⟨⟨y,hp⟩,-⟩
        exact absurd hp.2 hv.ne_empty
  · have hnone : m.keyWait = none := by
      cases hk : m.keyWait with
      | none => rfl
      | some q => exact absurd (h (by rw [hk]; rfl)) hi
    have hstep : (m.step keys).machine.keyWait = m.keyWait :=
      (execute_keeps m.advance keys _ _).2.1 fun x hx => hi ⟨x,hx⟩
    rw [hstep, hnone]
    constructor
    · intro hk
      cases hk
    · rintro ⟨⟨x,hp⟩,-⟩
      exact absurd ⟨x,hp.1⟩ hi

theorem instruction_of_pollsInVain {m : Machine} {x : UInt8} {keys : Keypad}
    (h : m.PollsInVain x keys) : (m.step keys).machine.instruction = .waitKey x := by
  rw [step_of_pollsInVain h]
  exact h.1

theorem waitsInPlace_step {m : Machine} (h : m.WaitsInPlace) (keys : Keypad) :
    (m.step keys).machine.WaitsInPlace := by
  intro hs
  obtain ⟨p,hp⟩ := Option.isSome_iff_exists.mp hs
  obtain ⟨⟨x,hx⟩,-⟩ := (keyWait_step h keys p).mp hp
  exact ⟨x,instruction_of_pollsInVain hx⟩

theorem waitsInPlace_after {m : Machine} (h : m.WaitsInPlace) (w : Surroundings) (n : Nat) :
    (m.after w n).WaitsInPlace := by
  induction n with
  | zero => exact h
  | succ n ih => exact waitsInPlace_step (m := (m.after w n).elapse w n) ih _

theorem keyWait_load {m m' : Machine} {program : List UInt8} (h : m.load program = .ok m') :
    m'.keyWait = m.keyWait := by
  rw [load] at h
  cases hl : m.memory.load program with
  | error f =>
    rw [hl] at h
    cases h
  | ok memory =>
    rw [hl] at h
    cases h
    rfl

theorem keyWait_of_load {c : Config} {key : ChaCha.Key} {program : List UInt8} {m : Machine}
    (h : (initial c key).load program = .ok m) : m.keyWait = none := keyWait_load h

theorem shown_eq_drop {m : Machine} {k j : Nat} (h : m.polls = k+j) (w : Surroundings) :
    m.shown w = w.keys.drop k j := by
  rw [shown, h]
  rfl

section Wait
variable {m : Machine} {w : Surroundings} {n : Nat} {x : UInt8}

/-- Once the first poll of a wait was in vain, and as long as the later ones find no key newly down,
the machine stays where the wait began, and the pending wait knows what the poll before read. -/
theorem wait_after_of_vain (h : (m.after w n).PollsInVain x ((m.after w n).shown w)) (j : Nat)
    (hj : ∀ i < j, (w.keys.drop (m.after w n).polls).newlyDown i = ∅) :
    let polls := w.keys.drop (m.after w n).polls
    let now := m.after w (n+j)
    now.instruction = .waitKey x ∧ now.pc = (m.after w n).pc ∧
      now.polls = (m.after w n).polls + j ∧
      now.newKeys (polls j) = polls.newlyDown j := by
  induction j with
  | zero => exact ⟨h.1,rfl,rfl,h.2⟩
  | succ j ih =>
    intro polls now
    obtain ⟨hin,hpc,hpolls,hnew⟩ := ih fun i h => hj i (Nat.lt_succ_of_lt h)
    have hvain : ((m.after w (n+j)).elapse w (n+j)).PollsInVain x (polls j) :=
      ⟨hin,hnew.trans (hj j (Nat.lt_succ_self j))⟩
    have hnow : now = { (m.after w (n+j)).elapse w (n+j) with
        keyWait := some (polls j), polls := (m.after w (n+j)).polls+1 } := by
      change ((m.after w (n+j)).stepIn w (n+j)).machine = _
      rw [stepIn, shown_eq_drop hpolls, step_of_pollsInVain hvain]
      rfl
    rw [hnow]
    exact ⟨hin,hpc,congrArg (· + 1) hpolls,rfl⟩

/-- As long as the polls of a wait find no key newly down, the machine stays where the wait began,
and the pending wait knows what the poll before read. -/
theorem wait_after (hk : (m.after w n).keyWait = none)
    (hi : (m.after w n).instruction = .waitKey x) (j : Nat)
    (hj : ∀ i < j, (w.keys.drop (m.after w n).polls).newlyDown i = ∅) :
    let polls := w.keys.drop (m.after w n).polls
    let now := m.after w (n+j)
    now.instruction = .waitKey x ∧ now.pc = (m.after w n).pc ∧
      now.polls = (m.after w n).polls + j ∧
      now.newKeys (polls j) = polls.newlyDown j := by
  refine wait_after_of_vain ⟨hi,?_⟩ j hj
  rw [newKeys, hk]

end Wait

/-- A wait for a key in any surroundings. A pending wait always stands for the latest step having been
a poll in vain, and the machine is at that instruction still. A wait goes on as long as no poll finds
a key down that was up at the poll before, and all it changes is the pending wait; the first poll that
finds such keys puts the lowest of them into the register and moves on. -/
theorem keyWait_after (c : Config) (key : ChaCha.Key) (program : List UInt8) (m : Machine)
    (hm : (initial c key).load program = .ok m) (w : Surroundings) :
    (m.keyWait = none ∧
      ∀ n p, (m.after w (n+1)).keyWait = some p ↔
        (∃ x, (m.after w n).PollsInVain x ((m.after w n).shown w)) ∧ p = (m.after w n).shown w) ∧
    (∀ n x, (m.after w n).PollsInVain x ((m.after w n).shown w) →
      (m.after w (n+1)).instruction = .waitKey x) ∧
    ∀ n x, (m.after w n).keyWait = none → (m.after w n).instruction = .waitKey x →
      let polls := w.keys.drop (m.after w n).polls
      ∀ j, (∀ i < j, polls.newlyDown i = ∅) →
        let before := (m.after w (n+j)).elapse w (n+j)
        (polls.newlyDown j = ∅ →
          (m.after w (n+j)).stepIn w (n+j) =
            ok { before with keyWait := some (polls j), polls := before.polls+1 }) ∧
        ((polls.newlyDown j).Nonempty →
          ∃ key, IsLeast (polls.newlyDown j) key.toNat ∧
            (m.after w (n+j)).stepIn w (n+j) =
              ok { before with
                pc := (m.after w n).pc + m.pcStep.bytes
                registers := before.registers.set x key
                keyWait := none
                polls := before.polls+1 }) := by
  have hnone := keyWait_of_load hm
  have hplace : m.WaitsInPlace := by
    intro h
    rw [hnone] at h
    cases h
  refine ⟨⟨hnone,?_⟩,?_,?_⟩
  · intro n p
    exact keyWait_step (m := (m.after w n).elapse w n) (waitsInPlace_after hplace w n) _ p
  · intro n x hx
    exact instruction_of_pollsInVain (m := (m.after w n).elapse w n) hx
  · intro n x hk hi polls j hj before
    obtain ⟨hin,hpc,hpolls,hnew⟩ := wait_after hk hi j hj
    have hshown : (m.after w (n+j)).shown w = polls j := shown_eq_drop hpolls w
    have hpc' : before.pc = (m.after w n).pc := hpc
    have hstep : before.pcStep = m.pcStep := pcStep_after m w (n+j)
    constructor
    · intro hv
      rw [stepIn, hshown]
      exact step_of_pollsInVain (x := x) ⟨hin,hnew.trans hv⟩
    · intro hv
      obtain ⟨key,hlow,hs⟩ := step_of_key (m := before) hin (hnew.symm ▸ hv)
      refine ⟨key,hnew ▸ hlow,?_⟩
      rw [stepIn, hshown, hs, hpc', hstep]

/-- A wait that begins with key 5 down does not end before key 9 goes down as well. -/
theorem keyWait_after_held_key :
    let program := [0xF3,0x0A]
    let m := holding program
    let w := Surroundings.still fun k => ⟨if k < 2 then 0x020 else 0x220⟩
    (initial Config.standard (Vector.replicate 8 0)).load program = .ok m ∧
      ((m.after w 2).stepIn w 2).machine.pc = 0x202 ∧
      ((m.after w 2).stepIn w 2).machine.registers.get 3 = 9 := by
  intro program m w
  have hload : (initial Config.standard (Vector.replicate 8 0)).load program = .ok m := rfl
  have h : m.instruction = .waitKey 3 ∧ m.polls = 0 := by decide +kernel
  obtain ⟨hi,hpolls⟩ := h
  have hheld : ∀ i < 2, (w.keys.drop m.polls).newlyDown i = ∅ := by
    intro i hlt
    rw [hpolls]
    obtain rfl | rfl : i = 0 ∨ i = 1 := by omega
    · rfl
    · exact Set.sdiff_self
  have hnew : (w.keys.drop m.polls).newlyDown 2 = {9} := by
    rw [hpolls]
    exact (Keypad.down_since ⟨0x220⟩ ⟨0x020⟩).symm.trans (Keypad.down_bit 9)
  obtain ⟨key,hlow,hs⟩ := ((keyWait_after _ _ program m hload w).2.2 0 3 rfl hi 2 hheld).2
    (hnew ▸ Set.singleton_nonempty 9)
  rw [after, hnew] at hlow
  rw [Nat.zero_add] at hs
  have hkey : key = 9 := UInt8.toNat_inj.mp (hlow.unique isLeast_singleton)
  refine ⟨hload,?_,?_⟩
  · rw [hs]
    rfl
  · rw [hs, ← hkey]
    exact Registers.get_set_self _ _ _

end Machine
end Chip8
