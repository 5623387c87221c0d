import Chip8.Word

/-! The call stack: return addresses in sixteen fixed slots. Misuse is refused, never wrapped around,
and what a pop leaves behind in its slot is out of reach. -/
namespace Chip8

/-- Return addresses, the oldest in slot 0; the slots from `depth` on are free. -/
structure CallStack where
  slots : Vector Address 16
  depth : Nat
  depth_le : depth ≤ 16 := by omega
  deriving DecidableEq, Repr

namespace CallStack

def empty : CallStack := ⟨Vector.replicate 16 0,0,by omega⟩

def toList (s : CallStack) : List Address := s.slots.toList.take s.depth

/-- Refuses when all slots are taken. -/
def push? (s : CallStack) (a : Address) : Option CallStack :=
  if h : s.depth < 16 then some ⟨s.slots.set s.depth a,s.depth+1,h⟩ else none

/-- The newest address and the stack without it; none when the stack is empty. -/
def pop? (s : CallStack) : Option (Address × CallStack) :=
  if h : 0 < s.depth then
    have := s.depth_le
    some (s.slots[s.depth-1],⟨s.slots,s.depth-1,by omega⟩)
  else none

@[simp] theorem toList_empty : empty.toList = [] := rfl

@[simp] theorem length_toList (s : CallStack) : s.toList.length = s.depth := by
  simp [toList, Nat.min_eq_left s.depth_le]

theorem push?_eq_none_iff (s : CallStack) (a : Address) : s.push? a = none ↔ s.depth = 16 := by
  have := s.depth_le
  simp only [push?]
  split <;> simp <;> omega

theorem pop?_eq_none_iff (s : CallStack) : s.pop? = none ↔ s.depth = 0 := by
  simp [pop?]

theorem toList_push? {s t : CallStack} {a : Address} (h : s.push? a = some t) :
    t.toList = s.toList ++ [a] := by
  unfold push? at h
  split at h
  · cases h
    rename_i hd
    have hl : s.depth < s.slots.toList.length := by simpa using hd
    simp only [toList, Vector.toList_set]
    rw [List.take_succ_eq_append_getElem (by simpa using hl), List.take_set_of_le (Nat.le_refl _)]
    simp
  · cases h

theorem toList_pop? {s t : CallStack} {a : Address} (h : s.pop? = some (a,t)) :
    s.toList = t.toList ++ [a] := by
  unfold pop? at h
  split at h
  · cases h
    have := s.depth_le
    have hl : s.depth-1 < s.slots.toList.length := by simp; omega
    have hd : s.depth = s.depth-1+1 := by omega
    simp only [toList]
    conv => lhs; rw [hd, List.take_succ_eq_append_getElem hl]
    simp
  · cases h

end CallStack
end Chip8
