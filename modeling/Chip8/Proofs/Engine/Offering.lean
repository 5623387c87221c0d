import Chip8.Proofs.Engine.Batching

/-! Which pictures an engine offers to its renderer. A batch that comes to its end is followed by an
offer if it leaves a new picture. The fault that ends a batch ends the run before the offer, so a
picture that was drawn in the last batch of a failing program never leaves the machine. -/
namespace Chip8.Engine

/-- The batch that a wake runs; none if the time is too long to be banked. -/
def batch? (e : Engine) (script : KeyScript) (elapsed : Duration) : Option Batch :=
  (e.bank.bank? elapsed).map fun bank => { e with bank := bank }.batch script

/-- A wake publishes the picture, whatever the way to the renderer is, and no other one. -/
def Offers (e : Engine) (script : KeyScript) (elapsed : Duration) (f : Frame) : Prop :=
  ∀ p, ({ e with publisher := p }.wake script elapsed).1.publisher = (p.publish f).1

theorem publisher_offerFrame {e : Engine} (h : e.machine.display.dirty = true) :
    e.offerFrame.publisher = (e.publisher.publish e.machine.display.frame).1 := by
  simp only [offerFrame, Machine.frame?, if_pos h]

theorem exists_publish_ne (f : Frame) : ∃ p : Publisher, (p.publish f).1 ≠ p :=
  ⟨Publisher.toChannel none,fun h => nomatch h⟩

section Batch
variable {e : Engine} {script : KeyScript} {elapsed : Duration} {b : Batch}
  (hb : e.batch? script elapsed = some b)
include hb

theorem wake_of_batch? :
    e.wake script elapsed =
      if b.fault.isSome then (⟨b.machine,b.bank,e.publisher⟩,b.fault)
      else (offerFrame ⟨b.machine,b.bank,e.publisher⟩,none) := by
  obtain ⟨paid,hp,rfl⟩ := Option.map_eq_some_iff.mp hb
  exact wake_eq hp script

/-- The batch is the run of the steps that the time pays for, if the counter can count them. -/
theorem toOutcome_of_batch? {paid : Accumulator} (hp : e.bank.bank? elapsed = some paid) {n : Nat}
    (hn : paid.steps = n) (hlt : n < UInt32.size) :
    b.toOutcome = (e.machine.run script n).toOutcome := by
  subst hn
  rw [batch?, hp] at hb
  obtain rfl : _ = b := Option.some.inj hb
  exact Batch.toOutcome_drain e.machine paid script hlt

/-- A new picture is offered right after the batch that leaves it, unless that batch met a fault. -/
theorem offers_of_batch? (hd : b.machine.display.dirty = true) :
    e.Offers script elapsed b.machine.display.frame ↔ b.fault = none := by
  have hw : ∀ p, ({ e with publisher := p }.wake script elapsed) =
      if b.fault.isSome then (⟨b.machine,b.bank,p⟩,b.fault)
      else (offerFrame ⟨b.machine,b.bank,p⟩,none) :=
    fun p => wake_of_batch? (e := { e with publisher := p }) hb
  constructor
  · intro ho
    refine Option.not_isSome_iff_eq_none.mp fun hf => ?_
    obtain ⟨p,hp⟩ := exists_publish_ne b.machine.display.frame
    have := ho p
    rw [hw, if_pos hf] at this
    exact hp this.symm
  · intro hf p
    rw [hw, if_neg (Option.not_isSome_iff_eq_none.mpr hf)]
    exact publisher_offerFrame hd

end Batch

/-- After wakes without a fault the run goes on from where they left the engine. -/
theorem wakes_append {e : Engine} {script : KeyScript} {ws : List Wake}
    (h : (e.wakes script ws).2 = none) (rest : List Wake) :
    e.wakes script (ws ++ rest) = (e.wakes script ws).1.wakes script rest := by
  induction ws generalizing e with
  | nil => rfl
  | cons w ws ih =>
    let next := (e.meet w).wake script w.elapsed
    change (if next.2.isSome then next else next.1.wakes script ws).2 = none at h
    change (if next.2.isSome then next else next.1.wakes script (ws ++ rest)) =
      (if next.2.isSome then next else next.1.wakes script ws).1.wakes script rest
    by_cases hf : next.2.isSome
    · rw [if_pos hf] at h
      rw [h] at hf
      cases hf
    · rw [if_neg hf] at h ⊢
      rw [if_neg hf, ih h]

/-- In a run of an engine, a batch that leaves a new picture is followed by an offer of that picture
if and only if it met no fault. After a fault nothing at all is offered: the engine runs no further,
and the way to the renderer stays as the last wake found it. -/
theorem offers_iff_no_fault (e : Engine) (script : KeyScript) (ws : List Wake)
    (hrun : (e.wakes script ws).2 = none) (w : Wake) (b : Batch)
    (hb : ((e.wakes script ws).1.meet w).batch? script w.elapsed = some b)
    (hd : b.machine.display.dirty = true) :
    let now := (e.wakes script ws).1.meet w
    (now.Offers script w.elapsed b.machine.display.frame ↔ b.fault = none) ∧
    (b.fault ≠ none → ∀ rest,
      e.wakes script (ws ++ w :: rest) = (⟨b.machine,b.bank,now.publisher⟩,b.fault)) := by
  intro now
  refine ⟨offers_of_batch? hb hd,?_⟩
  intro hf rest
  have hs : b.fault.isSome = true := Option.isSome_iff_ne_none.mpr hf
  have hw : now.wake script w.elapsed = (⟨b.machine,b.bank,now.publisher⟩,b.fault) :=
    (wake_of_batch? hb).trans (if_pos hs)
  rw [wakes_append hrun]
  change (if (now.wake script w.elapsed).2.isSome then now.wake script w.elapsed else _) = _
  rw [hw, if_pos hs]

/-- A wake that pays for no step, and one in which a program draws a digit and goes on. -/
theorem offers_of_drawing_program :
    let e : Engine := ⟨Machine.holding [0xA0,0x50,0xD0,0x05,0x12,0x04],
      Accumulator.ofTimestep ⟨10,by decide⟩,Publisher.detached⟩
    let idle : Engine := { e with bank := { e.bank with banked := ⟨5,by decide⟩ } }
    let script := KeyScript.const Keypad.released
    let w : Wake := ⟨⟨25,by decide⟩,fun _ => Publisher.toChannel (some 1)⟩
    e.wakes script [⟨⟨5,by decide⟩,id⟩] = (idle,none) ∧
    ∃ b, (idle.meet w).batch? script w.elapsed = some b ∧ b.machine.display.dirty = true ∧
      (idle.meet w).Offers script w.elapsed b.machine.display.frame := by
  intro e idle script w
  have hws : e.wakes script [⟨⟨5,by decide⟩,id⟩] = (idle,none) := by
    have hp : idle.bank.pay? = none := by decide
    have hbank : e.bank.bank? ⟨5,by decide⟩ = some idle.bank := rfl
    have hw := wake_eq hbank script
    rw [Batch.drain_of_none hp] at hw
    change (if (wake e script _).2.isSome then _ else (wake e script _).1.wakes script []) = _
    rw [hw]
    rfl
  let paid : Accumulator := { e.bank with banked := ⟨30,by decide⟩ }
  let b := (Batch.begin e.machine paid).drain script
  have hb : (idle.meet w).batch? script w.elapsed = some b := rfl
  have hrun : b.toOutcome = (e.machine.run script 3).toOutcome :=
    toOutcome_of_batch? hb rfl (by decide) (by decide)
  have h : (e.machine.run script 3).machine.display.dirty = true ∧
      (e.machine.run script 3).fault = none := by decide +kernel
  have hd : b.machine.display.dirty = true := (congrArg (·.machine.display.dirty) hrun).trans h.1
  have hf : b.fault = none := (congrArg Outcome.fault hrun).trans h.2
  have hoffers := offers_iff_no_fault e script [⟨⟨5,by decide⟩,id⟩] (by rw [hws]) w b
    (by rw [hws]; exact hb) hd
  rw [hws] at hoffers
  exact ⟨hws,b,hb,hd,hoffers.1.mpr hf⟩

/-- A program draws a digit and fails in the same batch: the renderer is there, but is not offered the
picture. -/
theorem not_offers_of_failing_program :
    let e : Engine := ⟨Machine.holding [0xA0,0x50,0xD0,0x05,0xE0,0x00],
      Accumulator.ofTimestep ⟨10,by decide⟩,Publisher.toChannel none⟩
    let script := KeyScript.const Keypad.released
    let elapsed : Duration := ⟨30,by decide⟩
    ∃ b, e.batch? script elapsed = some b ∧ b.fault = some (.unknownOpcode 0xE000 0x204) ∧
      b.machine.display.dirty = true ∧ b.machine.display.frame.pixel 0 0 = true ∧
      ¬ e.Offers script elapsed b.machine.display.frame := by
  intro e script elapsed
  let b := (Batch.begin e.machine { e.bank with banked := elapsed }).drain script
  have hb : e.batch? script elapsed = some b := rfl
  have hrun : b.toOutcome = (e.machine.run script 3).toOutcome :=
    toOutcome_of_batch? hb rfl (by decide) (by decide)
  have h : (e.machine.run script 3).fault = some (.unknownOpcode 0xE000 0x204) ∧
      (e.machine.run script 3).machine.display.dirty = true ∧
      (e.machine.run script 3).machine.display.frame.pixel 0 0 = true := by decide +kernel
  obtain ⟨hf,hd,hp⟩ := h
  have hf : b.fault = some _ := (congrArg Outcome.fault hrun).trans hf
  have hd : b.machine.display.dirty = true := (congrArg (·.machine.display.dirty) hrun).trans hd
  have hp : b.machine.display.frame.pixel 0 0 = true :=
    (congrArg (·.machine.display.frame.pixel 0 0) hrun).trans hp
  refine ⟨b,hb,hf,hd,hp,?_⟩
  rw [offers_of_batch? hb hd, hf]
  exact Option.some_ne_none _

end Chip8.Engine
