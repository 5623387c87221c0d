import Chip8.Keypad.Shared
import Chip8.Proofs.History

/-! What is read through the handles of shared keypads. A keypad is a set of keys: a key is down if the
last call that concerned it left it down, whichever of the keypad's handles the call came through, and
calls on other keypads and other keys do not matter. A history lists what happened, the latest first. -/
namespace Chip8

namespace Keypad

inductive Call where
  | press (key : UInt8)
  | release (key : UInt8)
  | setState (mask : UInt16)
  | reset
  deriving DecidableEq, Repr

def act (k : Keypad) : Call → Keypad
  | .press key => k.press key
  | .release key => k.release key
  | .setState mask => ⟨mask⟩
  | .reset => released

/-- Whether the call leaves the key down; none if it does not concern the key. -/
def Call.leaves? (key : UInt8) : Call → Option Bool
  | .press other => if other.toNat % 16 = key.toNat % 16 then some true else none
  | .release other => if other.toNat % 16 = key.toNat % 16 then some false else none
  | .setState mask => some (mask.toNat.testBit (key.toNat % 16))
  | .reset => some false

/-- A call changes the keys that it concerns. -/
theorem isDown_act (k : Keypad) (c : Call) (key : UInt8) :
    (k.act c).isDown key = (c.leaves? key).getD (k.isDown key) := by
  cases c with
  | press other =>
    rw [act, isDown_press, Call.leaves?]
    split <;> simp_all
  | release other =>
    rw [act, isDown_release, Call.leaves?]
    split <;> simp_all
  | setState mask => exact isDown_eq_testBit _ _
  | reset => exact isDown_released key

theorem testBit_mask (k : Keypad) {j : Nat} (h : j < 16) :
    k.mask.toNat.testBit j = k.isDown (UInt8.ofNat j) := by
  have hj : (UInt8.ofNat j).toNat % 16 = j := by
    rw [UInt8.toNat_ofNat']
    omega
  rw [isDown_eq_testBit, hj]

end Keypad

namespace SharedKeypads

inductive Event where
  | create
  | share (h : Nat)
  | call (h : Nat) (c : Keypad.Call)
  deriving DecidableEq, Repr

/-- Nothing happens through a handle that does not exist. -/
def happen (s : SharedKeypads) : Event → SharedKeypads
  | .create => s.create
  | .share h => if hh : h < s.handles.length then s.share ⟨h,hh⟩ else s
  | .call h c => if hh : h < s.handles.length then s.modify ⟨h,hh⟩ (·.act c) else s

def after (past : List Event) : SharedKeypads := History.after happen none past

theorem after_cons (e : Event) (past : List Event) : after (e :: past) = (after past).happen e := rfl

/-- The keypad that a handle names, if the handle exists. -/
def keypad? (s : SharedKeypads) (h : Nat) : Option Keypad :=
  if hh : h < s.handles.length then some (s.get ⟨h,hh⟩) else .none

/-- For each handle its keypad, by the order in which keypads were created. -/
def owners : List Event → List Nat
  | [] => []
  | .create :: past => owners past ++ [past.count .create]
  | .share h :: past => owners past ++ (owners past)[h]?.toList
  | .call _ _ :: past => owners past

/-- The calls on a keypad, through whichever handle, the latest first. -/
def callsOn (p : Nat) : List Event → List Keypad.Call
  | [] => []
  | .call h c :: past => if (owners past)[h]? = some p then c :: callsOn p past else callsOn p past
  | .create :: past | .share _ :: past => callsOn p past

theorem keypad?_eq (s : SharedKeypads) (h : Nat) :
    s.keypad? h = s.handles[h]?.bind (s.pads[·]?) := by
  by_cases hh : h < s.handles.length
  · have hp := s.handle_lt s.handles[h] (List.getElem_mem hh)
    simp [keypad?, get, hh, hp]
  · simp [keypad?, hh]

theorem handles_call (s : SharedKeypads) (g : Nat) (c : Keypad.Call) :
    (s.happen (.call g c)).handles = s.handles := by
  rw [happen]
  split <;> rfl

theorem getElem?_pads_call (s : SharedKeypads) (g p : Nat) (c : Keypad.Call) :
    (s.happen (.call g c)).pads[p]? =
      if s.handles[g]? = some p then s.pads[p]?.map (·.act c) else s.pads[p]? := by
  rw [happen]
  split
  · rename_i hg
    rw [List.getElem?_eq_getElem hg]
    by_cases hp : s.handles[g] = p <;> simp [modify, hp]
  · rename_i hg
    simp [List.getElem?_eq_none (Nat.le_of_not_lt hg)]

/-- A call is seen through the handles of its keypad and through no others. -/
theorem keypad?_call (s : SharedKeypads) (g h : Nat) (c : Keypad.Call) :
    (s.happen (.call g c)).keypad? h =
      if s.handles[g]? = s.handles[h]? then (s.keypad? h).map (·.act c) else s.keypad? h := by
  rw [keypad?_eq, keypad?_eq, handles_call]
  cases hh : s.handles[h]? with
  | none => simp
  | some p =>
    rw [Option.bind_some, Option.bind_some, getElem?_pads_call]

theorem handles_pads_after (past : List Event) :
    (after past).handles = owners past ∧ (after past).pads.length = past.count .create := by
  induction past with
  | nil => exact ⟨rfl,rfl⟩
  | cons e past ih =>
    obtain ⟨hh,hp⟩ := ih
    cases e with
    | create => simp [after_cons, happen, create, owners, hp, hh]
    | share h =>
      rw [after_cons, happen, owners, ← hh]
      split
      · rename_i hlt
        simpa [share, List.getElem?_eq_getElem hlt] using hp
      · rename_i hlt
        simpa [List.getElem?_eq_none (Nat.le_of_not_lt hlt)] using hp
    | call h c =>
      rw [after_cons, happen, owners, ← hh]
      split
      · simpa [modify] using hp
      · simpa using hp

theorem handles_after (past : List Event) : (after past).handles = owners past :=
  (handles_pads_after past).1

theorem lt_of_mem_owners {past : List Event} {p : Nat} (h : p ∈ owners past) :
    p < past.count .create := by
  obtain ⟨hh,hp⟩ := handles_pads_after past
  rw [← hp]
  exact (after past).handle_lt p (hh ▸ h)

theorem callsOn_of_le {past : List Event} {p : Nat} (h : past.count .create ≤ p) :
    callsOn p past = [] := by
  induction past with
  | nil => rfl
  | cons e past ih =>
    have hpast := ih (Nat.le_trans List.count_le_count_cons h)
    cases e with
    | create => exact hpast
    | share g => exact hpast
    | call g c =>
      rw [callsOn, hpast, if_neg]
      intro hg
      have hlt := lt_of_mem_owners (List.mem_of_getElem? hg)
      exact absurd (Nat.le_trans List.count_le_count_cons h) (Nat.not_le_of_lt hlt)

/-- The keys of a keypad, read off the calls on it. -/
theorem isDown_pads {past : List Event} {p : Nat} {k : Keypad} (h : (after past).pads[p]? = some k)
    (key : UInt8) : k.isDown key = ((callsOn p past).findSome? (·.leaves? key)).getD false := by
  induction past generalizing k with
  | nil => cases h
  | cons e past ih =>
    cases e with
    | create =>
      have hlen := (handles_pads_after past).2
      by_cases hp : p < (after past).pads.length
      · rw [after_cons, happen, create, List.getElem?_append_left hp] at h
        exact ih h
      · have hp := Nat.le_of_not_lt hp
        rw [after_cons, happen, create, List.getElem?_append_right hp] at h
        obtain ⟨-,rfl⟩ : _ ∧ Keypad.released = k := by simpa [List.getElem?_singleton] using h
        rw [callsOn, callsOn_of_le (hlen ▸ hp)]
        exact Keypad.isDown_released key
    | share g =>
      rw [after_cons, happen] at h
      split at h <;> exact ih h
    | call g c =>
      rw [after_cons, getElem?_pads_call, handles_after] at h
      rw [callsOn]
      split at h
      · rename_i hg
        obtain ⟨before,hb,rfl⟩ := Option.map_eq_some_iff.mp h
        rw [if_pos hg, List.findSome?_cons, Keypad.isDown_act, ih hb]
        cases c.leaves? key <;> rfl
      · rename_i hg
        rw [if_neg hg]
        exact ih h

/-- Each keypad is a set of sixteen keys that its handles share, whatever calls are made through
whichever handles and however many handles there are. A key is down if and only if the last call that
concerned it, through any handle of the keypad, left it down; the mask has the bit of each key set that
is down. A call does not change what is read through the handles of other keypads, nor the keys that it
does not concern. -/
theorem keys_shared_by_handles :
    (∀ past h p, (owners past)[h]? = some p →
      ∃ k, (after past).keypad? h = some k ∧
        (∀ key, k.isDown key = true ↔
          (callsOn p past).findSome? (·.leaves? key) = some true) ∧
        ∀ j < 16, k.mask.toNat.testBit j = k.isDown (UInt8.ofNat j)) ∧
    (∀ past g h c, (owners past)[g]? ≠ (owners past)[h]? →
      (after (.call g c :: past)).keypad? h = (after past).keypad? h) ∧
    ∀ past g h c key, c.leaves? key = .none →
      ((after (.call g c :: past)).keypad? h).map (·.isDown key) =
        ((after past).keypad? h).map (·.isDown key) := by
  refine ⟨?_,?_,?_⟩
  · intro past h p hp
    obtain ⟨hh,hlen⟩ := handles_pads_after past
    have hlt : p < (after past).pads.length := hlen ▸ lt_of_mem_owners (List.mem_of_getElem? hp)
    have hk := List.getElem?_eq_getElem hlt
    refine ⟨(after past).pads[p],?_,?_,fun j hj => Keypad.testBit_mask _ hj⟩
    · rw [keypad?_eq, hh, hp, Option.bind_some, hk]
    · intro key
      rw [isDown_pads hk]
      cases (callsOn p past).findSome? (·.leaves? key) <;> simp
  · intro past g h c hne
    rw [after_cons, keypad?_call, handles_after, if_neg hne]
  · intro past g h c key hc
    rw [after_cons, keypad?_call]
    split
    · rw [Option.map_map]
      congr 1
      funext k
      change (k.act c).isDown key = _
      rw [Keypad.isDown_act, hc, Option.getD_none]
    · rfl

/-- Two handles of one keypad and one of another. What is pressed through the first handle is released
through the second one, under another name of the same key; another key that was pressed stays down, and
the other keypad is reset without either of them noticing. -/
theorem keys_shared_by_handles_of_three :
    let calls : List Event := [.call 2 .reset,.call 1 (.release 0x2A),.call 0 (.press 0x0A)]
    let past := calls ++ [.call 1 (.setState 0x0020),.create,.share 0,.create]
    (owners past)[0]? = some 0 ∧ (owners past)[2]? ≠ (owners past)[0]? ∧
    (∃ k, (after past).keypad? 0 = some k ∧ k.isDown 0x15 = true ∧ ¬ k.isDown 0x0A = true ∧
      k.mask.toNat.testBit 5 = k.isDown 5) ∧
    (after past).keypad? 0 = (after past.tail).keypad? 0 ∧
    ((after past.tail).keypad? 0).map (·.isDown 5) =
      ((after past.tail.tail).keypad? 0).map (·.isDown 5) := by
  intro calls past
  obtain ⟨hlast,hothers,hkeys⟩ := keys_shared_by_handles
  have howner : (owners past)[0]? = some 0 := by decide
  have hother : (owners past)[2]? ≠ (owners past)[0]? := by decide
  obtain ⟨k,hk,hdown,hmask⟩ := hlast past 0 0 howner
  refine ⟨howner,hother,⟨k,hk,(hdown 0x15).mpr (by decide),?_,hmask 5 (by decide)⟩,
    hothers past.tail 2 0 .reset hother,hkeys past.tail.tail 1 0 (.release 0x2A) 5 (by decide)⟩
  rw [hdown 0x0A]
  decide

end SharedKeypads
end Chip8
