import Chip8.Engine.Basic
import Chip8.Proofs.Display.Publishing
import Chip8.Proofs.History
import Chip8.Proofs.Machine.Effects

/-! No picture is lost on the way from an engine to its renderer. A picture that is refused stays
pending, and the next one that is accepted is the picture of that time, so what was accepted last is
out of date only while the mark of a new picture is set. A history lists what happened, the latest
first; what the renderer does while the engine offers a picture comes before or after the offer. -/
namespace Chip8

theorem Machine.display_step (m : Machine) (keys : Keypad) :
    (m.step keys).machine.display = m.display ∨ (m.step keys).machine.display.dirty = true := by
  by_cases hc : m.instruction = .clear
  · right
    rw [step_of_instruction hc]
    rfl
  · by_cases hd : ∃ x y n, m.instruction = .draw x y n
    · obtain ⟨x,y,n,hd⟩ := hd
      right
      rw [step_of_instruction hd]
      rfl
    · exact .inl ((footprint_step m keys).display hc fun x y n h => hd ⟨x,y,n,h⟩)

/-- The picture that the channel accepts if the engine now offers the one it has. -/
def Engine.accepted? (e : Engine) : Option Frame :=
  e.machine.frame?.filter fun f => (e.publisher.publish f).2

/-- An engine, the pictures that its channel has accepted so far and those that its renderer has
received, the oldest first. -/
structure Handover where
  engine : Engine
  accepted : List Frame
  received : List Frame

namespace Handover

inductive Event where
  | step (keys : Keypad)
  | offer
  /-- The renderer begins to wait for a picture. -/
  | wait
  /-- The renderer waits no longer. -/
  | giveUp
  | receive
  | hangUp

def begin (e : Engine) : Handover := ⟨e,[],[]⟩

def frame (h : Handover) : Frame := h.engine.machine.display.frame

def dirty (h : Handover) : Bool := h.engine.machine.display.dirty

/-- The renderer does something at its end of the channel. -/
def render (h : Handover) (f : Publisher → Publisher) : Handover :=
  { h with engine := { h.engine with publisher := f h.engine.publisher } }

def next (h : Handover) : Event → Handover
  | .step keys =>
    { h with engine := { h.engine with machine := (h.engine.machine.step keys).machine } }
  | .offer =>
    { h with engine := h.engine.offerFrame, accepted := h.accepted ++ h.engine.accepted?.toList }
  | .wait => h.render Publisher.await
  | .giveUp => h.render Publisher.giveUp
  | .receive =>
    match h.engine.publisher.receive? with
    | none => h
    | some (f,p) => { h.render fun _ => p with received := h.received ++ [f] }
  | .hangUp => h.render Publisher.hangUp

def after (h : Handover) (past : List Event) : Handover := History.after next h past

theorem after_cons (h : Handover) (e : Event) (past : List Event) :
    h.after (e :: past) = (h.after past).next e := rfl

theorem after_append (h : Handover) (later past : List Event) :
    h.after (later ++ past) = (h.after past).after later := History.after_append h later past

/-- An offer is accepted, which clears the mark of a new picture, or comes to nothing: there is no new
picture or no room for it. -/
theorem next_offer (h : Handover) :
    (∃ c, h.engine.publisher.channel = some c ∧ c.listening = true ∧
      h.next .offer = { h with
        engine := { h.engine with
          machine := h.engine.machine.frameTaken
          publisher := ⟨some { c with queue := c.queue ++ [h.frame], receiver := .busy }⟩ }
        accepted := h.accepted ++ [h.frame] }) ∨
    ((h.dirty = true → ¬ h.engine.publisher.hasRoom = true) ∧
      ∃ p, (p = h.engine.publisher ∨ p = Publisher.detached) ∧
        h.next .offer = { h with engine := { h.engine with publisher := p } }) := by
  obtain ⟨⟨m,bank,p⟩,accepted,received⟩ := h
  simp only [next, Engine.accepted?, Engine.offerFrame, Machine.frame?, frame, dirty]
  by_cases hd : m.display.dirty = true
  · by_cases hr : p.hasRoom = true
    · left
      obtain ⟨c,hc,hl,hr⟩ := p.hasRoom_iff.mp hr
      refine ⟨c,hc,hl,?_⟩
      simp [hd, Publisher.publish_of_room hc hl hr]
    · right
      obtain ⟨hp,hq⟩ := Publisher.publish_of_no_room hr m.display.frame
      refine ⟨fun _ => hr,(p.publish m.display.frame).1,hq,?_⟩
      have hm : m.frameTaken.frameKept = m := by
        have hdisplay : (⟨m.display.frame,true⟩ : Display) = m.display := by rw [← hd]
        simp [Machine.frameTaken, Machine.frameKept, Display.markClean, Display.markDirty, hdisplay]
      simp [hd, hp, hm]
  · right
    refine ⟨fun h => absurd h hd,p,.inl rfl,?_⟩
    simp [hd]

/-- An offer that finds room leaves no new picture behind. -/
theorem dirty_next_offer {h : Handover} (hr : h.engine.publisher.hasRoom = true) :
    (h.next .offer).dirty = false := by
  obtain ⟨c,-,-,hn⟩ | ⟨hd,p,-,hn⟩ := h.next_offer
  · rw [hn]
    rfl
  · rw [hn]
    exact Bool.eq_false_iff.mpr fun h => hd h hr

/-- Whatever happens, either the channel accepts the picture of the time, or nothing is accepted and
the mark of a new picture is not cleared and is set if the picture changes. -/
theorem next_cases (h : Handover) (e : Event) :
    (h.next e).accepted = h.accepted ++ [(h.next e).frame] ∨
    ((h.next e).accepted = h.accepted ∧
      ((h.next e).dirty = false → h.dirty = false ∧ (h.next e).frame = h.frame)) := by
  cases e with
  | step keys =>
    refine .inr ⟨rfl,fun hc => ?_⟩
    obtain hd | hd := h.engine.machine.display_step keys
    · exact ⟨(congrArg Display.dirty hd).symm.trans hc,congrArg Display.frame hd⟩
    · exact absurd (hd.symm.trans hc) (by decide)
  | offer =>
    obtain ⟨c,-,-,hn⟩ | ⟨-,p,-,hn⟩ := h.next_offer
    · left
      rw [hn]
      rfl
    · right
      rw [hn]
      exact ⟨rfl,fun hc => ⟨hc,rfl⟩⟩
  | receive =>
    right
    simp only [next]
    split <;> exact ⟨rfl,fun hc => ⟨hc,rfl⟩⟩
  | wait | giveUp | hangUp => exact .inr ⟨rfl,fun hc => ⟨hc,rfl⟩⟩

/-- While the mark of a new picture is not set, the picture is the one that was accepted last, unless
since the beginning there was no picture to offer. -/
theorem after_clean (h : Handover) {past : List Event} (hc : (h.after past).dirty = false) :
    (h.after past).accepted.getLast? = some (h.after past).frame ∨
    (h.dirty = false ∧ (h.after past).accepted = h.accepted ∧ (h.after past).frame = h.frame) := by
  induction past with
  | nil => exact .inr ⟨hc,rfl,rfl⟩
  | cons e past ih =>
    rw [after_cons] at hc ⊢
    obtain ha | ⟨ha,hn⟩ := (h.after past).next_cases e
    · left
      rw [ha, List.getLast?_concat]
    · obtain ⟨hd,hf⟩ := hn hc
      rw [ha, hf]
      exact ih hd

/-- Once a picture was accepted, it stays the one accepted last for as long as it does not change. -/
theorem getLast?_after {h : Handover} (ha : h.accepted.getLast? = some h.frame)
    {later : List Event} (hf : ∀ s, s <:+ later → (h.after s).frame = h.frame) :
    (h.after later).accepted.getLast? = some h.frame := by
  induction later with
  | nil => exact ha
  | cons e later ih =>
    have hl := ih fun s hs => hf s (hs.trans (List.suffix_cons e later))
    have he := hf (e :: later) List.suffix_rfl
    rw [after_cons] at he ⊢
    obtain hn | ⟨hn,-⟩ := (h.after later).next_cases e
    · rw [hn, List.getLast?_concat, he]
    · rwa [hn]

/-- As long as the renderer is there, what was accepted is what it received and then what is still
queued. -/
def InOrder (h : Handover) : Prop :=
  ∀ c, h.engine.publisher.channel = some c → c.listening = true → h.accepted = h.received ++ c.queue

/-- The order is kept by what the renderer does without touching the queue or leaving. -/
theorem inOrder_render {h : Handover} (hi : h.InOrder) {f : Channel Frame → Channel Frame}
    (hqueue : ∀ c, (f c).queue = c.queue) (hlistening : ∀ c, (f c).listening = c.listening) :
    (h.render fun p => ⟨p.channel.map f⟩).InOrder := by
  intro c hc hl
  obtain ⟨d,hd,rfl⟩ := Option.map_eq_some_iff.mp hc
  rw [hlistening] at hl
  rw [hqueue]
  exact hi d hd hl

theorem inOrder_next {h : Handover} (hi : h.InOrder) (e : Event) : (h.next e).InOrder := by
  intro c hc hl
  cases e with
  | step keys => exact hi c hc hl
  | offer =>
    obtain ⟨d,hd,hdl,hn⟩ | ⟨-,p,rfl | rfl,hn⟩ := h.next_offer
    · rw [hn] at hc ⊢
      obtain rfl := Option.some.inj hc
      rw [hi d hd hdl, List.append_assoc]
    · rw [hn] at hc ⊢
      exact hi c hc hl
    · rw [hn] at hc
      cases hc
  | wait => exact inOrder_render hi Channel.queue_await Channel.listening_await c hc hl
  | giveUp => exact inOrder_render hi Channel.queue_giveUp Channel.listening_giveUp c hc hl
  | receive =>
    simp only [next] at hc ⊢
    split at hc
    · exact hi c hc hl
    · rename_i f p hp
      obtain ⟨d,rest,hd,hq,rfl⟩ := Publisher.receive?_eq_some hp
      obtain rfl := Option.some.inj hc
      change h.accepted = h.received ++ [f] ++ rest
      rw [hi d hd hl, hq, List.append_assoc]
      rfl
  | hangUp =>
    obtain ⟨d,-,rfl⟩ := Option.map_eq_some_iff.mp hc
    cases hl

theorem inOrder_after {h : Handover} (hi : h.InOrder) (past : List Event) :
    (h.after past).InOrder :=
  History.after_induction hi (fun _ e hi => inOrder_next hi e) past

/-- A renderer that does nothing but receive gets what is queued, one picture at a time. -/
theorem received_after {h : Handover} {c : Channel Frame}
    (hc : h.engine.publisher.channel = some c) (hl : c.listening = true) (n : Nat) :
    (h.after (List.replicate n .receive)).received = h.received ++ c.queue.take n := by
  induction n generalizing h c with
  | zero => simp [after, History.after]
  | succ n ih =>
    rw [after, History.after_replicate, ← after]
    cases hq : c.queue with
    | nil =>
      have hn : h.next .receive = h := by
        simp [next, Publisher.receive?, hc, Channel.receive?, hl, hq]
      rw [hn, ih hc hl, hq]
      simp
    | cons f rest =>
      have hn : h.next .receive = { h with
          engine := { h.engine with publisher := ⟨some { c with queue := rest }⟩ }
          received := h.received ++ [f] } := by
        simp [next, render, Publisher.receive?, hc, Channel.receive?, hl, hq]
      rw [hn, ih (c := { c with queue := rest }) rfl hl]
      simp

/-- No picture is lost, whatever the engine and its renderer do and in whatever order, and whether the
channel has places or hands each picture to a renderer that waits for one. While the mark of a new
picture is not set, the picture is the one that the channel accepted last, or else none was accepted and
the picture is still blank. So once an offer has found room after something was drawn, however many were
refused before, and as long as the picture does not change any more, it is the one accepted last, and the
one received last by a renderer that is still there and receives all that is queued. -/
theorem last_picture_arrives (m : Machine) (bank : Accumulator) (p : Publisher)
    (hm : m.display = Display.blank)
    (hp : p = Publisher.detached ∨ ∃ capacity, p = Publisher.toChannel capacity) :
    let start := begin ⟨m,bank,p⟩
    (∀ past, (start.after past).dirty = false →
      (start.after past).accepted.getLast? = some (start.after past).frame ∨
      (start.after past).accepted = [] ∧ (start.after past).frame = Frame.blank) ∧
    ∀ past between later, (start.after past).dirty = true →
      (start.after (between ++ past)).engine.publisher.hasRoom = true →
      let offered := start.after (.offer :: (between ++ past))
      (∀ s, s <:+ later → (offered.after s).frame = offered.frame) →
      let final := offered.after later
      final.accepted.getLast? = some final.frame ∧
      ∀ c, final.engine.publisher.channel = some c → c.listening = true →
        ∀ n, c.queue.length ≤ n →
          (final.after (List.replicate n .receive)).received.getLast? = some final.frame := by
  intro start
  constructor
  · intro past hc
    obtain ha | ⟨-,ha,hf⟩ := start.after_clean hc
    · exact .inl ha
    · exact .inr ⟨ha,hf.trans (congrArg Display.frame hm)⟩
  · intro past between later hd hr offered hf final
    have hclean : ((start.after past).after (.offer :: between)).dirty = false := by
      rw [after_cons, ← after_append]
      exact dirty_next_offer hr
    have hoffered : offered.accepted.getLast? = some offered.frame := by
      obtain ha | ⟨hd',-,-⟩ := after_clean _ hclean
      · rwa [← after_append] at ha
      · exact absurd (hd.symm.trans hd') (by decide)
    have hfinal : final.accepted.getLast? = some final.frame := by
      rw [hf later List.suffix_rfl]
      exact getLast?_after hoffered hf
    refine ⟨hfinal,?_⟩
    intro c hc hl n hn
    have hstart : start.InOrder := by
      intro d hd hl
      obtain rfl | ⟨capacity,rfl⟩ := hp
      · cases hd
      · obtain rfl := Option.some.inj hd
        rfl
    have horder : final.InOrder := inOrder_after (inOrder_after hstart _) later
    rw [received_after hc hl, List.take_of_length_le hn, ← horder c hc hl]
    exact hfinal

/-- A channel without places. The renderer waits for the first picture and gets it; it does not wait
when the second one is offered, which is refused, and gets it once it waits again. -/
theorem last_picture_arrives_after_refusal :
    let m := Machine.holding [0xA0,0x50,0xD0,0x05,0x60,0x08,0xD0,0x05]
    let p := Publisher.toChannel (some 0)
    let start := begin ⟨m,Accumulator.ofTimestep Duration.zero,p⟩
    let step := Event.step Keypad.released
    let past := [step,step,.receive,.offer,.wait,step,step]
    let final := start.after ([.offer,.wait,.offer] ++ past)
    m.display = Display.blank ∧ (start.after past).dirty = true ∧
    (start.after past).received.length = 1 ∧
    (start.after (.offer :: past)).accepted = (start.after past).accepted ∧
    (start.after ([.wait,.offer] ++ past)).engine.publisher.hasRoom = true ∧
    (final.after [.receive]).received.getLast? = some final.frame ∧
    (start.after past).received.getLast? ≠ some final.frame := by
  intro m p start step past final
  have h : (start.after past).dirty = true ∧ (start.after past).received.length = 1 ∧
      (start.after (.offer :: past)).accepted = (start.after past).accepted ∧
      (start.after ([.wait,.offer] ++ past)).engine.publisher.hasRoom = true ∧
      (start.after past).received.getLast? ≠ some final.frame ∧
      final.engine.publisher.channel.map (fun c => (c.listening,c.queue.length)) =
        some (true,1) := by decide +kernel
  obtain ⟨hd,hfirst,hrefused,hr,hnew,hc⟩ := h
  obtain ⟨c,hc,hlen⟩ := Option.map_eq_some_iff.mp hc
  obtain ⟨hl,hq⟩ := Prod.mk.inj hlen
  have harrives := (last_picture_arrives m _ p rfl (.inr ⟨some 0,rfl⟩)).2
    past [.wait,.offer] [] hd hr
    (fun s hs => by rw [List.suffix_nil.mp hs]; rfl)
  exact ⟨rfl,hd,hfirst,hrefused,hr,harrives.2 c hc hl 1 (Nat.le_of_eq hq),hnew⟩

end Handover
end Chip8
