import Chip8.Proofs.Machine.KeyWait

/-! The first wait for a key of a program that is loaded into a machine that ran another one. Loading
leaves a pending wait as it is, and so does all that the new program does before it waits. Its first
wait therefore goes on from the last poll of the old program, if that one was in vain. -/
namespace Chip8

theorem PcStep.add_bytes_ne (s : PcStep) (a : Address) : a + s.bytes ≠ a := by
  cases s <;> simp [bytes]

namespace Machine

/-- The wait that polls first in step `n` ends with its poll `j`, counted from zero. -/
def EndsWait (m : Machine) (w : Surroundings) (n j : Nat) : Prop :=
  (∀ i ≤ j, (m.after w (n+i)).pc = (m.after w n).pc) ∧ (m.after w (n+j+1)).pc ≠ (m.after w n).pc

/-- Step `n` is the beginning of a wait for `Vx`. It does not end the wait, and a key that it finds down
ends the wait only after a later poll found it up. -/
structure WaitsAfresh (m : Machine) (w : Surroundings) (n : Nat) (x : UInt8) : Prop where
  stays : (m.after w (n+1)).pc = (m.after w n).pc
  keeps : (m.after w (n+1)).registers.get x = (m.after w n).registers.get x
  held : ∀ j, m.EndsWait w n j →
    let polls := w.keys.drop (m.after w n).polls
    let key := (m.after w (n+j+1)).registers.get x
    (polls 0).isDown key →
      ∃ i, 0 < i ∧ i < j ∧ (polls i).isDown key = false ∧ (polls j).isDown key = true

/-- The keys that the next poll of a wait finds newly down. -/
def newKeysIn (m : Machine) (w : Surroundings) : Set Nat := m.newKeys (m.shown w)

section Wait
variable {m : Machine} {w : Surroundings} {n : Nat} {x : UInt8}

theorem after_of_newKeys (hi : (m.after w n).instruction = .waitKey x)
    (hv : ((m.after w n).newKeysIn w).Nonempty) :
    IsLeast ((m.after w n).newKeysIn w) ((m.after w (n+1)).registers.get x).toNat ∧
      (m.after w (n+1)).pc ≠ (m.after w n).pc := by
  obtain ⟨key,hlow,hs⟩ := step_of_key (m := (m.after w n).elapse w n) hi hv
  rw [after, stepIn, hs]
  refine ⟨?_,PcStep.add_bytes_ne _ _⟩
  change IsLeast (newKeysIn _ w) (((m.after w n).registers.set x key).get x).toNat
  rw [Registers.get_set_self]
  exact hlow

variable (hi : (m.after w n).instruction = .waitKey x)
  (hv : (m.after w n).newKeysIn w = ∅)
include hi hv

theorem newKeys_after (j : Nat)
    (hj : ∀ i < j, (w.keys.drop (m.after w n).polls).newlyDown i = ∅) :
    (m.after w (n+j)).instruction = .waitKey x ∧ (m.after w (n+j)).pc = (m.after w n).pc ∧
      (m.after w (n+j)).newKeysIn w = (w.keys.drop (m.after w n).polls).newlyDown j := by
  obtain ⟨hin,hpc,hpolls,hnew⟩ := wait_after_of_vain ⟨hi,hv⟩ j hj
  rw [← shown_eq_drop hpolls] at hnew
  exact ⟨hin,hpc,hnew⟩

/-- As long as the machine stays where a wait began, no poll finds a key newly down. -/
theorem newlyDown_of_pc_eq {j : Nat} (hpc : ∀ i ≤ j, (m.after w (n+i)).pc = (m.after w n).pc) :
    ∀ i < j, (w.keys.drop (m.after w n).polls).newlyDown i = ∅ := by
  intro i
  -- the first poll that found one would have moved the machine on
  induction i using Nat.strongRecOn with
  | ind i ih =>
    intro hij
    obtain ⟨hin,hpci,hnew⟩ := newKeys_after hi hv i fun k hk => ih k hk (Nat.lt_trans hk hij)
    rw [← hnew, ← Set.not_nonempty_iff_eq_empty]
    intro hne
    exact (after_of_newKeys hin hne).2 ((hpc (i+1) hij).trans hpci.symm)

theorem waitsAfresh_of_vain : m.WaitsAfresh w n x := by
  have hfirst : m.after w (n+1) = { (m.after w n).elapse w n with
      keyWait := some ((m.after w n).shown w), polls := (m.after w n).polls+1 } := by
    rw [after, stepIn, step_of_pollsInVain (m := (m.after w n).elapse w n) ⟨hi,hv⟩]
    rfl
  refine ⟨by rw [hfirst]; rfl,by rw [hfirst]; rfl,?_⟩
  rintro j ⟨hpc,hend⟩ polls key hdown
  have hj := newlyDown_of_pc_eq hi hv hpc
  obtain ⟨hin,-,hnew⟩ := newKeys_after hi hv j hj
  have hne : ((m.after w (n+j)).newKeysIn w).Nonempty := by
    rw [Set.nonempty_iff_ne_empty]
    intro he
    refine hend (newKeys_after hi hv (j+1) fun i hij => ?_).2.1
    obtain hij | rfl := Nat.lt_succ_iff_lt_or_eq.mp hij
    · exact hj i hij
    · rwa [← hnew]
  have hkey : key.toNat ∈ polls.newlyDown j := by
    rw [← hnew]
    exact (after_of_newKeys hin hne).1.1
  cases j with
  | zero => exact hkey.elim
  | succ i =>
    obtain ⟨hnow,hbefore⟩ := hkey
    have hlt := Keypad.lt_of_mem_down hnow
    rw [← Keypad.isDown_eq_true_iff hlt] at hnow hbefore
    rw [Bool.not_eq_true] at hbefore
    refine ⟨i,?_,Nat.lt_succ_self i,hbefore,hnow⟩
    -- at the first poll the key was down
    refine Nat.pos_of_ne_zero fun h0 => ?_
    rw [h0, hdown] at hbefore
    cases hbefore

end Wait

theorem keyWait_after_of_no_wait {m : Machine} {w : Surroundings} {n : Nat}
    (h : ∀ t < n, ∀ y, (m.after w t).instruction ≠ .waitKey y) :
    (m.after w n).keyWait = m.keyWait := by
  induction n with
  | zero => rfl
  | succ n ih =>
    rw [← ih fun t ht => h t (Nat.lt_succ_of_lt ht)]
    exact (execute_keeps ((m.after w n).elapse w n).advance _ _ _).2.1 (h n (Nat.lt_succ_self n))

/-- The first wait for a key after a program was loaded begins afresh, unless the machine was waiting
for a key already when the program was loaded, and a key that the last poll before found up is down
at the first poll after. Such a key ends the wait at once. -/
theorem waitsAfresh_after_load {m m' : Machine} {program : List UInt8}
    (hl : m.load program = .ok m') (w : Surroundings) (n : Nat) (x : UInt8)
    (hno : ∀ t < n, ∀ y, (m'.after w t).instruction ≠ .waitKey y)
    (hi : (m'.after w n).instruction = .waitKey x) :
    m'.WaitsAfresh w n x ↔
      ∀ p, m.keyWait = some p → ((m'.after w n).shown w).down ⊆ p.down := by
  have hk : (m'.after w n).keyWait = m.keyWait :=
    (keyWait_after_of_no_wait hno).trans (keyWait_load hl)
  constructor
  · intro h p hp
    rw [← Set.sdiff_eq_empty, ← Set.not_nonempty_iff_eq_empty]
    intro hne
    have hnew : ((m'.after w n).newKeysIn w).Nonempty := by rwa [newKeysIn, newKeys, hk, hp]
    exact (after_of_newKeys hi hnew).2 h.stays
  · intro h
    refine waitsAfresh_of_vain hi ?_
    rw [newKeysIn, newKeys, hk]
    cases hp : m.keyWait with
    | none => rfl
    | some p => exact Set.sdiff_eq_empty.mpr (h p hp)

/-- Key 2 is down at the last poll of a wait, and is still down when another program is loaded that
waits for a key in its second instruction. -/
theorem waitsAfresh_after_load_of_held_key :
    let w := Surroundings.still fun _ => ⟨0x4⟩
    let m := (holding [0xF3,0x0A]).after w 1
    let m' := { m with
      memory := m.memory.writeAll Memory.programStart [0x60,0x01,0xF4,0x0A], pc := Memory.programStart }
    m.keyWait = some ⟨0x4⟩ ∧ m.load [0x60,0x01,0xF4,0x0A] = .ok m' ∧ m'.WaitsAfresh w 1 4 := by
  intro w m m'
  have hk : m.keyWait = some ⟨0x4⟩ := by decide +kernel
  have hi : (m'.after w 0).instruction = .set 0 1 ∧ (m'.after w 1).instruction = .waitKey 4 := by
    decide +kernel
  have hl : m.load [0x60,0x01,0xF4,0x0A] = .ok m' := rfl
  refine ⟨hk,hl,(waitsAfresh_after_load hl w 1 4 ?_ hi.2).mpr ?_⟩
  · intro t ht y
    obtain rfl : t = 0 := Nat.lt_one_iff.mp ht
    simp [hi.1]
  · intro p hp
    obtain rfl : ⟨0x4⟩ = p := Option.some.inj (hk.symm.trans hp)
    exact Set.Subset.rfl

/-- If key 2 goes down only after the last poll of the old program, it ends the wait of the new one in
its first step. -/
theorem not_waitsAfresh_after_load_of_new_key :
    let m := (holding [0xF3,0x0A]).after (Surroundings.still fun _ => Keypad.released) 1
    let m' := { m with
      memory := m.memory.writeAll Memory.programStart [0xF5,0x0A], pc := Memory.programStart }
    let w := Surroundings.still fun _ => ⟨0x4⟩
    m.load [0xF5,0x0A] = .ok m' ∧ m'.instruction = .waitKey 5 ∧
    (m'.after w 1).pc = 0x202 ∧ (m'.after w 1).registers.get 5 = 2 ∧ ¬ m'.WaitsAfresh w 0 5 := by
  intro m m' w
  have h : m'.instruction = .waitKey 5 ∧ (m'.after w 1).pc = 0x202 ∧
      (m'.after w 1).registers.get 5 = 2 ∧ (m'.after w 1).pc ≠ (m'.after w 0).pc := by
    decide +kernel
  obtain ⟨hi,hpc,hx,hne⟩ := h
  exact ⟨rfl,hi,hpc,hx,fun ha => hne ha.stays⟩

end Machine
end Chip8
