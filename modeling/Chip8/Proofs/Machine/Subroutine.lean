import Chip8.Proofs.Machine.Surroundings

/-! Subroutines. Between a call and the return that belongs to it the machine may do what it likes,
calls and returns of its own included: what was on the call stack stays there, and the return comes
back behind the call. -/
namespace Chip8
open Outcome (ok)

/-- Whether the instruction puts a return address on the call stack. -/
def Instruction.isCall : Instruction → Bool
  | .call _ => true
  | _ => false

/-- Whether the instruction takes a return address off the call stack. -/
def Instruction.isRet : Instruction → Bool
  | .ret => true
  | _ => false

namespace Machine

theorem step_call {m : Machine} {a : Address} (hi : m.instruction = .call a) (keys : Keypad) :
    (m.stack.depth < 16 → (m.step keys).fault = none) ∧
    ((m.step keys).fault = none →
      (m.step keys).machine.stack.toList = m.stack.toList ++ [m.pc + m.pcStep.bytes]) := by
  simp only [step_of_instruction hi, execute]
  cases hp : m.advance.stack.push? m.advance.pc with
  | none =>
    have hd : m.stack.depth = 16 := (CallStack.push?_eq_none_iff _ _).mp hp
    exact ⟨fun h => absurd hd (Nat.ne_of_lt h),fun h => absurd h (Option.some_ne_none _)⟩
  | some s => exact ⟨fun _ => rfl,fun _ => CallStack.toList_push? hp⟩

theorem step_ret {m : Machine} (hi : m.instruction = .ret) (keys : Keypad) :
    (0 < m.stack.depth → (m.step keys).fault = none) ∧
    ((m.step keys).fault = none →
      m.stack.toList = (m.step keys).machine.stack.toList ++ [(m.step keys).machine.pc]) := by
  simp only [step_of_instruction hi, execute]
  cases hp : m.advance.stack.pop? with
  | none =>
    have hd : m.stack.depth = 0 := (CallStack.pop?_eq_none_iff _).mp hp
    exact ⟨fun h => absurd hd (Nat.ne_of_gt h),fun h => absurd h (Option.some_ne_none _)⟩
  | some p => exact ⟨fun _ => rfl,fun _ => CallStack.toList_pop? hp⟩

theorem stack_step {m : Machine} {keys : Keypad} (hok : (m.step keys).fault = none) :
    (m.instruction.isCall = true ∧ m.instruction.isRet = false ∧
      (m.step keys).machine.stack.toList = m.stack.toList ++ [m.pc + m.pcStep.bytes]) ∨
    (m.instruction.isCall = false ∧ m.instruction.isRet = true ∧
      m.stack.toList = (m.step keys).machine.stack.toList ++ [(m.step keys).machine.pc]) ∨
    (m.instruction.isCall = false ∧ m.instruction.isRet = false ∧
      (m.step keys).machine.stack = m.stack) := by
  by_cases hc : ∃ a, m.instruction = .call a
  · obtain ⟨a,hc⟩ := hc
    left
    exact ⟨by rw [hc]; rfl,by rw [hc]; rfl,(step_call hc keys).2 hok⟩
  · by_cases hr : m.instruction = .ret
    · right; left
      exact ⟨by rw [hr]; rfl,by rw [hr]; rfl,(step_ret hr keys).2 hok⟩
    · right; right
      refine ⟨?_,?_,(execute_keeps m.advance keys _ _).2.2 (fun a ha => hc ⟨a,ha⟩) hr⟩
      · cases hi : m.instruction <;> first | rfl | exact absurd ⟨_,hi⟩ hc
      · cases hi : m.instruction <;> first | rfl | exact absurd hi hr

/-- A call makes the call stack one address deeper and a return takes one off. -/
theorem depth_step {m : Machine} {keys : Keypad} (hok : (m.step keys).fault = none) :
    (m.step keys).machine.stack.depth + (if m.instruction.isRet then 1 else 0) =
      m.stack.depth + (if m.instruction.isCall then 1 else 0) := by
  obtain ⟨hc,hr,hs⟩ | ⟨hc,hr,hs⟩ | ⟨hc,hr,hs⟩ := stack_step hok
  · have hlen := congrArg List.length hs
    rw [List.length_append, CallStack.length_toList, CallStack.length_toList] at hlen
    rw [hc, hr, hlen]
    rfl
  · have hlen := congrArg List.length hs
    rw [List.length_append, CallStack.length_toList, CallStack.length_toList] at hlen
    rw [hc, hr, hlen]
    rfl
  · rw [hc, hr, hs]

/-- Addresses at the bottom of the call stack stay there unless the step takes the stack below
them. -/
theorem prefix_step {m : Machine} {keys : Keypad} {bottom : List Address}
    (hok : (m.step keys).fault = none) (h : bottom <+: m.stack.toList)
    (hd : bottom.length ≤ (m.step keys).machine.stack.depth) :
    bottom <+: (m.step keys).machine.stack.toList := by
  obtain ⟨-,-,hs⟩ | ⟨-,-,hs⟩ | ⟨-,-,hs⟩ := stack_step hok
  · rw [hs]
    exact h.trans (List.prefix_append _ _)
  · rw [← CallStack.length_toList] at hd
    rw [hs] at h
    exact List.prefix_of_prefix_length_le h (List.prefix_append _ _) hd
  · rwa [hs]

def executed (m : Machine) (w : Surroundings) (n : Nat) : List Instruction :=
  (List.range n).map fun t => (m.after w t).instruction

theorem executed_succ (m : Machine) (w : Surroundings) (n : Nat) :
    m.executed w (n+1) = m.executed w n ++ [(m.after w n).instruction] := by
  rw [executed, List.range_succ, List.map_append]
  rfl

/-- Calls and returns account for the depth of the call stack. -/
theorem depth_after (m : Machine) (w : Surroundings) (n : Nat)
    (hok : ∀ t < n, ((m.after w t).stepIn w t).fault = none) :
    (m.after w n).stack.depth + (m.executed w n).countP Instruction.isRet =
      m.stack.depth + (m.executed w n).countP Instruction.isCall := by
  induction n with
  | zero => rfl
  | succ n ih =>
    have hn := ih fun t ht => hok t (Nat.lt_succ_of_lt ht)
    have hs := depth_step (hok n (Nat.lt_succ_self n))
    rw [executed_succ, List.countP_append, List.countP_append, List.countP_singleton,
      List.countP_singleton]
    change (m.after w (n+1)).stack.depth + _ = (m.after w n).stack.depth + _ at hs
    rw [instruction_elapse] at hs
    omega

section Subroutine
variable {m : Machine} {w : Surroundings} {a : Address} {n : Nat} (hcall : m.instruction = .call a)
  (hd : m.stack.depth < 16)
  (hok : ∀ t < n, ((m.after w (t+1)).stepIn w (t+1)).fault = none)
  (hdeep : ∀ t ≤ n, m.stack.depth + 1 ≤ (m.after w (t+1)).stack.depth)
include hcall hd

theorem fault_call : (m.stepIn w 0).fault = none :=
  (step_call (m := m.elapse w 0) hcall (m.shown w)).1 hd

include hok

theorem fault_after_call {t : Nat} (ht : t < n+1) : ((m.after w t).stepIn w t).fault = none := by
  cases t with
  | zero => exact fault_call hcall hd
  | succ t => exact hok t (Nat.lt_of_succ_lt_succ ht)

include hdeep

theorem prefix_after_call {t : Nat} (ht : t ≤ n) :
    m.stack.toList ++ [m.pc + m.pcStep.bytes] <+: (m.after w (t+1)).stack.toList := by
  induction t with
  | zero =>
    have hs := (step_call (m := m.elapse w 0) hcall (m.shown w)).2 (fault_call hcall hd)
    change (m.after w 1).stack.toList = m.stack.toList ++ [m.pc + m.pcStep.bytes] at hs
    exact ⟨[],by rw [List.append_nil, hs]⟩
  | succ t ih =>
    apply prefix_step (m := (m.after w (t+1)).elapse w (t+1)) (hok t ht) (ih (Nat.le_of_succ_le ht))
    rw [List.length_append, CallStack.length_toList]
    exact hdeep (t+1) ht

end Subroutine

/-- A subroutine runs on top of the call stack that it was called with. From a call that finds a free
slot, and as long as steps succeed and nothing returns from the subroutine itself, the call stack
stays within its slots, holds as many more addresses than before as there were calls without a
return, and keeps at its bottom what it held and the address behind the call. A return from the
subroutine itself then succeeds, goes to that address and leaves the call stack as the call found
it. -/
theorem subroutine_nests (m : Machine) (w : Surroundings) (a : Address) (n : Nat)
    (hcall : m.instruction = .call a) (hd : m.stack.depth < 16)
    (hok : ∀ t < n, ((m.after w (t+1)).stepIn w (t+1)).fault = none)
    (hdeep : ∀ t ≤ n, m.stack.depth + 1 ≤ (m.after w (t+1)).stack.depth) :
    (m.stepIn w 0).fault = none ∧
    (∀ t ≤ n,
      (m.after w (t+1)).stack.depth ≤ 16 ∧
      (m.after w (t+1)).stack.depth + (m.executed w (t+1)).countP Instruction.isRet =
        m.stack.depth + (m.executed w (t+1)).countP Instruction.isCall ∧
      (m.after w (t+1)).stack.toList.take (m.stack.depth + 1) =
        m.stack.toList ++ [m.pc + m.pcStep.bytes]) ∧
    ((m.after w (n+1)).instruction = .ret → (m.after w (n+1)).stack.depth = m.stack.depth + 1 →
      ((m.after w (n+1)).stepIn w (n+1)).fault = none ∧
      (m.after w (n+2)).pc = m.pc + m.pcStep.bytes ∧
      (m.after w (n+2)).stack.toList = m.stack.toList) := by
  refine ⟨fault_call hcall hd,?_,?_⟩
  · intro t ht
    refine ⟨(m.after w (t+1)).stack.depth_le,?_,?_⟩
    · exact depth_after m w (t+1) fun u hu =>
        fault_after_call hcall hd hok (Nat.lt_of_lt_of_le hu (Nat.succ_le_succ ht))
    · have hp := prefix_after_call hcall hd hok hdeep ht
      have hlen : (m.stack.toList ++ [m.pc + m.pcStep.bytes]).length = m.stack.depth + 1 := by
        rw [List.length_append, CallStack.length_toList]
        rfl
      rw [← hlen]
      exact (List.prefix_iff_eq_take.mp hp).symm
  · intro hret hdn
    have hp := prefix_after_call hcall hd hok hdeep (Nat.le_refl n)
    have hbottom := hp.eq_of_length (by
      rw [List.length_append, CallStack.length_toList, CallStack.length_toList, hdn]
      rfl)
    have hs := step_ret (m := (m.after w (n+1)).elapse w (n+1)) hret ((m.after w (n+1)).shown w)
    have hf : ((m.after w (n+1)).stepIn w (n+1)).fault = none := hs.1 (by
      change 0 < (m.after w (n+1)).stack.depth
      omega)
    have hpop : (m.after w (n+1)).stack.toList =
        (m.after w (n+2)).stack.toList ++ [(m.after w (n+2)).pc] := hs.2 hf
    rw [← hbottom] at hpop
    obtain ⟨hstack,hpc⟩ := List.append_inj' hpop rfl
    refine ⟨hf,?_,hstack.symm⟩
    simpa using hpc.symm

/-- A subroutine that calls another one and then returns. -/
theorem subroutine_nests_within_subroutine :
    let m := holding [0x22,0x06,0x00,0x00,0x00,0x00,0x22,0x0A,0x00,0xEE,0x00,0xEE]
    let w := Surroundings.still (KeyScript.const Keypad.released)
    (m.instruction = .call 0x206 ∧ m.stack.depth < 16 ∧
      (∀ t < 2, ((m.after w (t+1)).stepIn w (t+1)).fault = none) ∧
      (∀ t ≤ 2, m.stack.depth + 1 ≤ (m.after w (t+1)).stack.depth) ∧
      (m.after w 3).instruction = .ret ∧ (m.after w 3).stack.depth = m.stack.depth + 1) ∧
    (m.after w 4).pc = 0x202 ∧ (m.after w 4).stack.toList = [] := by
  intro m w
  have h : m.instruction = .call 0x206 ∧ m.stack.depth < 16 ∧
      (∀ t < 2, ((m.after w (t+1)).stepIn w (t+1)).fault = none) ∧
      (∀ t ≤ 2, m.stack.depth + 1 ≤ (m.after w (t+1)).stack.depth) ∧
      (m.after w 3).instruction = .ret ∧ (m.after w 3).stack.depth = m.stack.depth + 1 := by
    decide +kernel
  obtain ⟨hcall,hd,hok,hdeep,hret,hdepth⟩ := h
  have hback := (subroutine_nests m w 0x206 2 hcall hd hok hdeep).2.2 hret hdepth
  exact ⟨⟨hcall,hd,hok,hdeep,hret,hdepth⟩,hback.2⟩

end Machine
end Chip8
