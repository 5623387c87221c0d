import Chip8.Instruction.Decode

/-! The words whose instructions can end a program: the ones that encode nothing, the return and the
calls. All other words encode instructions that always succeed. -/
namespace Chip8.Instruction

/-- Whether the instruction can meet a fault. -/
def canFault : Instruction → Bool
  | .ret | .call _ | .unknown _ => true
  | _ => false

theorem decodeArithmetic_cases (w : Word) :
    decodeArithmetic w = .unknown w ∨ (decodeArithmetic w).canFault = false := by
  unfold decodeArithmetic
  split <;> simp [canFault]

theorem decodeRegister_cases (w : Word) :
    decodeRegister w = .unknown w ∨ (decodeRegister w).canFault = false := by
  unfold decodeRegister
  split <;> simp [canFault]

theorem decode_of_group_two {w : Word} (h : w.group = 2) : decode w = .call w.address := by
  simp only [decode, h]

/-- An instruction that can meet a fault comes from a word that encodes nothing, from the one word of
the return, or from a word of the group of calls. -/
theorem decode_cases (w : Word) :
    decode w = .unknown w ∨ (w = 0x00EE ∧ decode w = .ret) ∨
    (w.group = 2 ∧ decode w = .call w.address) ∨ (decode w).canFault = false := by
  by_cases h2 : w.group = 2
  · exact .inr (.inr (.inl ⟨h2,decode_of_group_two h2⟩))
  · unfold decode
    -- The cases that are named are the groups 2, 8, E and F; but for group 0, which comes first, all
    -- others are decoded at once.
    split
    · split
      · simp [canFault]
      · split <;> simp_all [canFault]
    case h_3 h => exact absurd h h2
    case h_9 =>
      exact (decodeArithmetic_cases w).imp_right fun h => .inr (.inr h)
    case h_15 =>
      split
      · simp [canFault]
      · split <;> simp [canFault]
    case h_16 =>
      exact (decodeRegister_cases w).imp_right fun h => .inr (.inr h)
    all_goals simp [canFault]

theorem cases_of_canFault {w : Word} {i : Instruction} (h : decode w = i) (hf : i.canFault = true) :
    i = .unknown w ∨ (w = 0x00EE ∧ i = .ret) ∨ (w.group = 2 ∧ i = .call w.address) := by
  have hw := decode_cases w
  rw [h, hf] at hw
  simpa using hw

theorem eq_of_decode_eq_unknown {w u : Word} (h : decode w = .unknown u) : u = w := by
  obtain hi | ⟨-,hi⟩ | ⟨-,hi⟩ := cases_of_canFault h rfl
  · exact Instruction.unknown.inj hi
  · cases hi
  · cases hi

theorem decode_eq_ret_iff (w : Word) : decode w = .ret ↔ w = 0x00EE := by
  constructor
  · intro h
    obtain hi | ⟨hw,-⟩ | ⟨-,hi⟩ := cases_of_canFault h rfl
    · cases hi
    · exact hw
    · cases hi
  · rintro rfl
    decide

theorem decode_eq_call_iff (w : Word) (a : Address) :
    decode w = .call a ↔ w.group = 2 ∧ a = w.address := by
  constructor
  · intro h
    obtain hi | ⟨-,hi⟩ | ⟨hg,hi⟩ := cases_of_canFault h rfl
    · cases hi
    · cases hi
    · exact ⟨hg,Instruction.call.inj hi⟩
  · rintro ⟨hg,rfl⟩
    exact decode_of_group_two hg

end Chip8.Instruction
