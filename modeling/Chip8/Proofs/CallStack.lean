import Chip8.CallStack

/-! The call stack is a list of at most sixteen addresses. Only its live slots stand for entries of the
list, and what a pop leaves behind in its slot is written over before it can be read again: two stacks
answer all calls alike exactly if their live slots agree. -/
namespace Chip8.CallStack

inductive Call where
  | push (a : Address)
  | pop
  deriving DecidableEq, Repr

inductive Answer where
  | pushed
  | popped (a : Address)
  | refused
  deriving DecidableEq, Repr

def Answer.address? : Answer → Option Address
  | .popped a => some a
  | .pushed | .refused => none

/-- What a stack answers to a call, and what becomes of it. -/
def act (s : CallStack) : Call → Answer × CallStack
  | .push a =>
    match s.push? a with
    | none => (.refused,s)
    | some t => (.pushed,t)
  | .pop =>
    match s.pop? with
    | none => (.refused,s)
    | some (a,t) => (.popped a,t)

/-- What a list of at most sixteen addresses answers, the newest of them last. -/
def actList (as : List Address) : Call → Answer × List Address
  | .push a => if as.length < 16 then (.pushed,as ++ [a]) else (.refused,as)
  | .pop =>
    match as.getLast? with
    | none => (.refused,as)
    | some a => (.popped a,as.dropLast)

/-- The answers to calls one after the other, and what is there in the end. -/
def serve {σ : Type} (f : σ → Call → Answer × σ) (s : σ) : List Call → List Answer × σ
  | [] => ([],s)
  | c :: calls =>
    let next := f s c
    let rest := serve f next.2 calls
    (next.1 :: rest.1,rest.2)

/-- The list that calls make of the empty one. -/
def listAfter (calls : List Call) : List Address := (serve actList [] calls).2

def after (calls : List Call) : CallStack := (serve act empty calls).2

theorem actList_toList (s : CallStack) (c : Call) :
    actList s.toList c = ((s.act c).1,(s.act c).2.toList) := by
  cases c with
  | push a =>
    cases h : s.push? a with
    | none =>
      have hd : s.depth = 16 := (s.push?_eq_none_iff a).mp h
      simp [actList, act, h, hd]
    | some t =>
      have hd : s.depth < 16 := by
        refine Nat.lt_of_le_of_ne s.depth_le fun hd => ?_
        rw [(s.push?_eq_none_iff a).mpr hd] at h
        cases h
      simp [actList, act, h, toList_push? h, hd]
  | pop =>
    cases h : s.pop? with
    | none =>
      have hnil : s.toList = [] := by
        rw [← List.length_eq_zero_iff, length_toList]
        exact s.pop?_eq_none_iff.mp h
      simp [actList, act, h, hnil]
    | some p =>
      obtain ⟨a,t⟩ := p
      simp [actList, act, h, toList_pop? h]

/-- Call for call, a stack answers what its list answers, and its list becomes what that becomes. -/
theorem serve_actList_toList (s : CallStack) (calls : List Call) :
    serve actList s.toList calls = ((serve act s calls).1,(serve act s calls).2.toList) := by
  induction calls generalizing s with
  | nil => rfl
  | cons c calls ih => simp only [serve, actList_toList, ih]

theorem toList_after (calls : List Call) : (after calls).toList = listAfter calls :=
  (congrArg Prod.snd (empty.serve_actList_toList calls)).symm

theorem depth_after (calls : List Call) : (after calls).depth = (listAfter calls).length := by
  rw [← toList_after, length_toList]

section Slots
variable (s : CallStack)

/-- A push is refused by a full stack, and otherwise writes the first slot that is free. -/
theorem act_push (a : Address) :
    (s.depth = 16 ∧ s.act (.push a) = (.refused,s)) ∨
    ∃ h : s.depth < 16, (s.act (.push a)).1 = .pushed ∧
      (s.act (.push a)).2.slots = s.slots.set s.depth a := by
  have hle := s.depth_le
  by_cases h : s.depth < 16
  · refine .inr ⟨h,?_,?_⟩ <;> simp [act, push?, h]
  · refine .inl ⟨by omega,?_⟩
    simp [act, push?, h]

/-- A pop is refused by an empty stack, and otherwise reads the last slot that is taken. -/
theorem act_pop :
    (s.depth = 0 ∧ s.act .pop = (.refused,s)) ∨
    ∃ h : 0 < s.depth ∧ s.depth - 1 < 16, (s.act .pop).1 = .popped s.slots[s.depth-1] ∧
      (s.act .pop).2.slots = s.slots := by
  have hle := s.depth_le
  by_cases h : 0 < s.depth
  · refine .inr ⟨⟨h,by omega⟩,?_,?_⟩ <;> simp [act, pop?, h]
  · refine .inl ⟨by omega,?_⟩
    simp [act, pop?, h]

end Slots

theorem getElem?_toList (s : CallStack) (i : Nat) :
    s.toList[i]? = if i < s.depth then s.slots[i]? else none := by
  rw [toList, List.getElem?_take, Vector.getElem?_toList]

theorem toList_eq_iff (s t : CallStack) :
    s.toList = t.toList ↔
      s.depth = t.depth ∧ ∀ i < s.depth, s.slots[i]? = t.slots[i]? := by
  constructor
  · intro h
    have hd : s.depth = t.depth := by rw [← length_toList, h, length_toList]
    refine ⟨hd,fun i hi => ?_⟩
    have hget := congrArg (·[i]?) h
    simpa only [getElem?_toList, if_pos hi, ← hd] using hget
  · rintro ⟨hd,hlive⟩
    refine List.ext_getElem? fun i => ?_
    rw [getElem?_toList, getElem?_toList, ← hd]
    split
    · exact hlive i ‹_›
    · rfl

/-- Popping reads a list off from its end. -/
theorem addresses_of_pops (as : List Address) (n : Nat) :
    (serve actList as (List.replicate n .pop)).1.filterMap Answer.address? = as.reverse.take n := by
  induction n generalizing as with
  | zero => rfl
  | succ n ih =>
    rw [List.replicate_succ]
    obtain rfl | ⟨bs,a,rfl⟩ := as.eq_nil_or_concat
    · have hn := ih []
      simpa [serve, actList, Answer.address?] using hn
    · simp [serve, actList, Answer.address?, ih, List.concat_eq_append]

/-- Stacks that answer all calls alike hold the same list, since sixteen pops read it off. -/
theorem toList_eq_of_answers {s t : CallStack}
    (h : ∀ calls, (serve act s calls).1 = (serve act t calls).1) : s.toList = t.toList := by
  have hread (u : CallStack) :
      (serve act u (List.replicate 16 .pop)).1.filterMap Answer.address? = u.toList.reverse := by
    have hpops := addresses_of_pops u.toList 16
    rw [serve_actList_toList] at hpops
    rw [hpops, List.take_of_length_le]
    rw [List.length_reverse, length_toList]
    exact u.depth_le
  rw [← List.reverse_inj, ← hread, ← hread, h]

/-- Whatever calls are made of it, the stack answers as a list of at most sixteen addresses does, and it
holds that list and its length. A push is refused exactly if sixteen addresses are there and otherwise
writes one slot, which exists; a pop is refused exactly if none is there and otherwise reads one slot,
which exists, and writes none; a call that is refused changes nothing. What is left in the other slots
has no part in it: two stacks answer all calls alike if and only if they are equally deep and their live
slots agree. -/
theorem serves_as_list :
    (∀ calls,
      let s := after calls
      (serve act empty calls).1 = (serve actList [] calls).1 ∧
      s.toList = listAfter calls ∧ s.depth = (listAfter calls).length ∧ s.depth ≤ 16 ∧
      (∀ a, (s.depth = 16 ∧ s.act (.push a) = (.refused,s)) ∨
        ∃ h : s.depth < 16, (s.act (.push a)).1 = .pushed ∧
          (s.act (.push a)).2.slots = s.slots.set s.depth a) ∧
      ((s.depth = 0 ∧ s.act .pop = (.refused,s)) ∨
        ∃ h : 0 < s.depth ∧ s.depth - 1 < 16, (s.act .pop).1 = .popped s.slots[s.depth-1] ∧
          (s.act .pop).2.slots = s.slots)) ∧
    ∀ s t : CallStack,
      (s.depth = t.depth ∧ ∀ i < s.depth, s.slots[i]? = t.slots[i]?) ↔
        ∀ calls, (serve act s calls).1 = (serve act t calls).1 := by
  constructor
  · intro calls s
    have hanswers := congrArg Prod.fst (empty.serve_actList_toList calls)
    exact ⟨hanswers.symm,toList_after calls,depth_after calls,s.depth_le,s.act_push,s.act_pop⟩
  · intro s t
    rw [← toList_eq_iff]
    refine ⟨fun h calls => ?_,toList_eq_of_answers⟩
    have hs := congrArg Prod.fst (s.serve_actList_toList calls)
    rw [h, t.serve_actList_toList] at hs
    exact hs.symm

/-- Two stacks that differ in a slot which a pop has left behind, and the seventeenth of as many pushes. -/
theorem serves_as_list_of_stale_slot :
    let s := after [.push 7,.push 8,.pop]
    let t := after [.push 7]
    let full := after (List.replicate 16 (.push 9))
    s.slots ≠ t.slots ∧ (∀ calls, (serve act s calls).1 = (serve act t calls).1) ∧
    full.act (.push 9) = (.refused,full) := by
  intro s t full
  obtain ⟨hlist,hsame⟩ := serves_as_list
  refine ⟨by decide +kernel,(hsame s t).mp ⟨rfl,by decide +kernel⟩,?_⟩
  obtain ⟨-,-,-,-,hpush,-⟩ := hlist (List.replicate 16 (.push 9))
  obtain ⟨-,hrefused⟩ | ⟨hlt,-⟩ := hpush 9
  · exact hrefused
  · exact absurd hlt (by decide +kernel)

end Chip8.CallStack
