import Chip8.Proofs.Machine.Surroundings
import Mathlib.Data.List.Forall2

/-! Addresses have sixteen bits, but only the twelve that select a cell of memory matter. Two machines
that differ in the other four bits of the program counter, of the index register and of the return
addresses do the same, step by step and for ever. -/
namespace Chip8
open Outcome (ok)

namespace Memory

theorem cell_eq_iff {a b : Address} : cell a = cell b ↔ a.toNat % 4096 = b.toNat % 4096 := by
  simp [cell]

theorem cell_add {a b : Address} (h : cell a = cell b) (k : UInt16) : cell (a+k) = cell (b+k) := by
  rw [cell_eq_iff] at h ⊢
  rw [UInt16.toNat_add, UInt16.toNat_add]
  omega

theorem cell_sub {a b : Address} (h : cell a = cell b) (k : UInt16) : cell (a-k) = cell (b-k) := by
  rw [UInt16.sub_eq_add_neg, UInt16.sub_eq_add_neg]
  exact cell_add h (-k)

theorem word_congr (m : Memory) {a b : Address} (h : cell a = cell b) : m.word a = m.word b := by
  rw [word, word, m.read_congr h, m.read_congr (cell_add h 1)]

theorem span_congr (m : Memory) {a b : Address} (h : cell a = cell b) (len : Nat) :
    m.span a len = m.span b len :=
  List.map_congr_left fun k _ => m.read_congr (cell_add h (UInt16.ofNat k))

theorem write_congr (m : Memory) {a b : Address} (h : cell a = cell b) (c : UInt8) :
    m.write a c = m.write b c := by
  ext r
  rw [read_write, read_write, h]

theorem writeAll_congr (m : Memory) {a b : Address} (h : cell a = cell b) (bs : List UInt8) :
    m.writeAll a bs = m.writeAll b bs := by
  induction bs generalizing m a b with
  | nil => rfl
  | cons c cs ih => rw [writeAll, writeAll, m.write_congr h, ih _ (cell_add h 1)]

end Memory

namespace CallStack
open Memory (cell)

/-- Two stacks of one depth whose return addresses select the same cells. -/
def Alias (s t : CallStack) : Prop := s.toList.map cell = t.toList.map cell

theorem Alias.depth_eq {s t : CallStack} (h : s.Alias t) : s.depth = t.depth := by
  have hl := congrArg List.length h
  simpa using hl

theorem Alias.push? {s t : CallStack} (h : s.Alias t) {a b : Address} (hab : cell a = cell b) :
    (s.push? a = none ∧ t.push? b = none) ∨
    ∃ s' t', s.push? a = some s' ∧ t.push? b = some t' ∧ s'.Alias t' := by
  cases hs : s.push? a with
  | none =>
    left
    refine ⟨rfl,?_⟩
    rw [push?_eq_none_iff] at hs ⊢
    rw [← h.depth_eq, hs]
  | some s' =>
    right
    cases ht : t.push? b with
    | none =>
      rw [push?_eq_none_iff, ← h.depth_eq, ← push?_eq_none_iff s a, hs] at ht
      cases ht
    | some t' =>
      refine ⟨s',t',rfl,rfl,?_⟩
      rw [Alias, toList_push? hs, toList_push? ht, List.map_append, List.map_append, h]
      simp [hab]

theorem Alias.pop? {s t : CallStack} (h : s.Alias t) :
    (s.pop? = none ∧ t.pop? = none) ∨
    ∃ a s' b t', s.pop? = some (a,s') ∧ t.pop? = some (b,t') ∧ cell a = cell b ∧ s'.Alias t' := by
  cases hs : s.pop? with
  | none =>
    left
    refine ⟨rfl,?_⟩
    rw [pop?_eq_none_iff] at hs ⊢
    rw [← h.depth_eq, hs]
  | some p =>
    right
    obtain ⟨a,s'⟩ := p
    cases ht : t.pop? with
    | none =>
      rw [pop?_eq_none_iff, ← h.depth_eq, ← pop?_eq_none_iff s, hs] at ht
      cases ht
    | some q =>
      obtain ⟨b,t'⟩ := q
      rw [Alias, toList_pop? hs, toList_pop? ht, List.map_append, List.map_append] at h
      obtain ⟨hl,hr⟩ := List.append_inj' h rfl
      refine ⟨a,s',b,t',rfl,rfl,?_,hl⟩
      simpa using hr

end CallStack

namespace Fault
open Memory (cell)

/-- Two faults that differ at most in the high bits of the address they were met at. -/
inductive Alias : Fault → Fault → Prop
  | unknownOpcode (w : Word) {a b : Address} (h : cell a = cell b) :
      Alias (.unknownOpcode w a) (.unknownOpcode w b)
  | stackOverflow (target : Address) {a b : Address} (h : cell a = cell b) :
      Alias (.stackOverflow a target) (.stackOverflow b target)
  | stackUnderflow {a b : Address} (h : cell a = cell b) :
      Alias (.stackUnderflow a) (.stackUnderflow b)

end Fault

namespace Machine
open Memory (cell)

/-- Two machines that differ at most in the high bits of their addresses. -/
structure Alias (m n : Machine) : Prop where
  display : m.display = n.display
  registers : m.registers = n.registers
  memory : m.memory = n.memory
  pc : cell m.pc = cell n.pc
  index : cell m.index = cell n.index
  stack : m.stack.Alias n.stack
  pcStep : m.pcStep = n.pcStep
  delay : m.delay = n.delay
  sound : m.sound = n.sound
  keyWait : m.keyWait = n.keyWait
  generator : m.generator = n.generator
  polls : m.polls = n.polls

end Machine

/-- Two outcomes with such machines and, if any, such faults. -/
structure Outcome.Alias (o p : Outcome) : Prop where
  machine : o.machine.Alias p.machine
  fault : Option.Rel Fault.Alias o.fault p.fault

namespace Machine
open Memory (cell)

section Execute
variable (m : Machine) {p k : Address} {t : CallStack} (hp : cell m.pc = cell p)
  (hk : cell m.index = cell k) (ht : m.stack.Alias t)
include hp hk ht

theorem alias_update : m.Alias { m with pc := p, index := k, stack := t } :=
  ⟨rfl,rfl,rfl,hp,hk,ht,rfl,rfl,rfl,rfl,rfl,rfl⟩

theorem alias_skipIf (condition : Bool) :
    (m.skipIf condition).Alias
      (skipIf { m with pc := p, index := k, stack := t } condition) := by
  cases condition with
  | false => exact alias_update m hp hk ht
  | true => exact alias_update m.advance (Memory.cell_add hp _) hk ht

theorem alias_execute (keys : Keypad) (i : Instruction) {a b : Address} (hab : cell a = cell b) :
    (m.execute keys i a).Alias
      (execute { m with pc := p, index := k, stack := t } keys i b) := by
  cases i with
  | ret =>
    obtain ⟨hs,hs'⟩ | ⟨c,s,d,s',hs,hs',hcd,hss⟩ := ht.pop?
    · simp only [execute, hs, hs']
      exact ⟨alias_update m hp hk ht,.some (.stackUnderflow hab)⟩
    · simp only [execute, hs, hs']
      exact ⟨alias_update { m with pc := c, stack := s } hcd hk hss,.none⟩
  | call target =>
    obtain ⟨hs,hs'⟩ | ⟨s,s',hs,hs',hss⟩ := ht.push? hp
    · simp only [execute, hs, hs']
      exact ⟨alias_update m hp hk ht,.some (.stackOverflow target hab)⟩
    · simp only [execute, hs, hs']
      exact ⟨alias_update { m with pc := target, stack := s } rfl hk hss,.none⟩
  | jump _ | jumpOffset _ => exact ⟨alias_update _ rfl hk ht,.none⟩
  | setIndex _ | glyph _ => exact ⟨alias_update _ hp rfl ht,.none⟩
  | addIndex x => exact ⟨alias_update _ hp (Memory.cell_add hk _) ht,.none⟩
  | skipEq _ _ | skipNe _ _ | skipEqReg _ _ | skipNeReg _ _ =>
    exact ⟨alias_skipIf m hp hk ht _,.none⟩
  | skipKey _ | skipNoKey _ => exact ⟨alias_skipIf m.polled hp hk ht _,.none⟩
  | waitKey x =>
    simp only [execute, awaitKey, polled]
    split
    · exact ⟨alias_update { m.polled.rewind with keyWait := some keys } (Memory.cell_sub hp _) hk ht,
        .none⟩
    · exact ⟨alias_update _ hp hk ht,.none⟩
  | draw x y n =>
    simp only [execute, drawSprite, m.memory.span_congr hk]
    exact ⟨alias_update _ hp hk ht,.none⟩
  | decimal x =>
    simp only [execute, m.memory.writeAll_congr hk]
    exact ⟨alias_update _ hp hk ht,.none⟩
  | save x =>
    simp only [execute, m.memory.writeAll_congr hk]
    exact ⟨alias_update _ hp hk ht,.none⟩
  | restore x =>
    simp only [execute, m.memory.span_congr hk]
    exact ⟨alias_update _ hp hk ht,.none⟩
  | unknown w => exact ⟨alias_update m hp hk ht,.some (.unknownOpcode w hab)⟩
  | _ => exact ⟨alias_update _ hp hk ht,.none⟩

end Execute

namespace Alias
variable {m n : Machine} (h : m.Alias n)
include h

theorem eq_update : n = { m with pc := n.pc, index := n.index, stack := n.stack } := by
  obtain ⟨h1,h2,h3,-,-,-,h7,h8,h9,h10,h11,h12⟩ := h
  rw [h1, h2, h3, h7, h8, h9, h10, h11, h12]

theorem step (keys : Keypad) : (m.step keys).Alias (n.step keys) := by
  have hw : n.word = m.word := by
    rw [word, word, ← h.memory]
    exact m.memory.word_congr h.pc.symm
  rw [Machine.step, Machine.step, hw, h.eq_update]
  exact alias_execute m.advance (Memory.cell_add h.pc _) h.index h.stack keys _ h.pc

theorem elapse (w : Surroundings) (t : Nat) : (m.elapse w t).Alias (n.elapse w t) := by
  rw [h.eq_update]
  exact alias_update _ h.pc h.index h.stack

theorem stepIn (w : Surroundings) (t : Nat) : (m.stepIn w t).Alias (n.stepIn w t) := by
  have hs : n.shown w = m.shown w := congrArg w.keys h.polls.symm
  rw [Machine.stepIn, Machine.stepIn, hs]
  exact (h.elapse w t).step _

theorem after (w : Surroundings) (t : Nat) : (m.after w t).Alias (n.after w t) := by
  induction t with
  | zero => exact h
  | succ t ih => exact (ih.stepIn w t).machine

end Alias

def faults (m : Machine) (w : Surroundings) (n : Nat) : List (Option Fault) :=
  (List.range n).map fun t => ((m.after w t).stepIn w t).fault

/-- Machines that differ at most in the high bits of their addresses meet, in the same surroundings,
faults that differ at most in those bits, and stay such machines. -/
theorem alias_run {m n : Machine} (h : m.Alias n) (w : Surroundings) (k : Nat) :
    List.Forall₂ (Option.Rel Fault.Alias) (m.faults w k) (n.faults w k) ∧
    (m.after w k).Alias (n.after w k) := by
  refine ⟨?_,h.after w k⟩
  rw [faults, faults, List.forall₂_map_left_iff, List.forall₂_map_right_iff, List.forall₂_same]
  intro t _
  exact ((h.after w t).stepIn w t).fault

/-- A program that calls, returns and fails, at two places whose addresses select the same cells. -/
theorem alias_run_of_high_bits :
    let m := holding [0x22,0x06,0xE0,0x00,0x00,0x00,0x00,0xEE]
    let n := { m with pc := 0x1200, index := 0xF000 }
    let w := Surroundings.still (KeyScript.const Keypad.released)
    m.Alias n ∧ n.faults w 3 = [none,none,some (.unknownOpcode 0xE000 0x1202)] ∧
    List.Forall₂ (Option.Rel Fault.Alias) (m.faults w 3) (n.faults w 3) ∧
    (m.after w 3).Alias (n.after w 3) := by
  intro m n w
  have h : m.Alias n :=
    ⟨rfl,rfl,rfl,by decide,by decide,rfl,rfl,rfl,rfl,rfl,rfl,rfl⟩
  exact ⟨h,by decide +kernel,alias_run h w 3⟩

end Machine
end Chip8
