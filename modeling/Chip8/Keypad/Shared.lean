import Chip8.Keypad.Basic

/-! Keypads that are reached through handles. Handles that were made from one another name the same
keypad, so a change through one shows through all of them. -/
namespace Chip8

/-- Several keypads, and for each handle the keypad it names. -/
structure SharedKeypads where
  pads : List Keypad
  handles : List Nat
  handle_lt : ∀ p ∈ handles, p < pads.length := by simp
  deriving DecidableEq

namespace SharedKeypads

def none : SharedKeypads := ⟨[],[],by simp⟩

/-- Adds a keypad of its own with all keys up; the new handle is the last. -/
def create (s : SharedKeypads) : SharedKeypads :=
  ⟨s.pads ++ [Keypad.released],s.handles ++ [s.pads.length],by
    intro p hp
    rw [List.length_append]
    rcases List.mem_append.mp hp with hp | hp
    · exact Nat.lt_add_right _ (s.handle_lt p hp)
    · simp [List.mem_singleton.mp hp]⟩

/-- Adds a handle that names the same keypad as handle `h`. -/
def share (s : SharedKeypads) (h : Fin s.handles.length) : SharedKeypads :=
  ⟨s.pads,s.handles ++ [s.handles[h]],by
    intro p hp
    rcases List.mem_append.mp hp with hp | hp
    · exact s.handle_lt p hp
    · rw [List.mem_singleton.mp hp]
      exact s.handle_lt _ (List.getElem_mem _)⟩

def get (s : SharedKeypads) (h : Fin s.handles.length) : Keypad :=
  have : s.handles[h] < s.pads.length := s.handle_lt _ (List.getElem_mem _)
  s.pads[s.handles[h]]

def modify (s : SharedKeypads) (h : Fin s.handles.length) (f : Keypad → Keypad) : SharedKeypads :=
  ⟨s.pads.modify s.handles[h] f,s.handles,by simpa using s.handle_lt⟩

@[simp] theorem handles_modify (s : SharedKeypads) (h : Fin s.handles.length) (f : Keypad → Keypad) :
    (s.modify h f).handles = s.handles := rfl

/-- A change shows through the handles of the same keypad and through no others. -/
theorem get_modify (s : SharedKeypads) (h g : Fin s.handles.length) (f : Keypad → Keypad) :
    (s.modify h f).get g = if s.handles[h] = s.handles[g] then f (s.get g) else s.get g := by
  simp [get, modify, List.getElem_modify]

end SharedKeypads
end Chip8
