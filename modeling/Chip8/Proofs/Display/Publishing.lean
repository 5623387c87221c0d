import Chip8.Display.Publisher
import Chip8.Proofs.History

/-! What becomes of the pictures that a publisher offers. Some are refused, but those that are accepted
arrive in their order, none of them twice, and none is left out before one that arrives; a renderer that
hangs up misses the last ones. A history lists what happened, the latest first. -/
namespace Chip8

theorem Channel.hasRoom_iff {α : Type} {c : Channel α} (h : c.receiver = .busy) :
    c.hasRoom = true ↔ ∀ n, c.capacity = some n → c.queue.length < n := by
  simp [hasRoom, h, Option.all_eq_true]

namespace Publisher

/-- Whether the renderer is there and its queue has room for a picture. -/
def hasRoom (p : Publisher) : Bool := p.channel.any fun c => c.listening && c.hasRoom

theorem hasRoom_iff (p : Publisher) :
    p.hasRoom = true ↔ ∃ c, p.channel = some c ∧ c.listening = true ∧ c.hasRoom = true := by
  simp [hasRoom, Option.any_eq_true]

theorem publish_of_room {p : Publisher} {c : Channel Frame} (hc : p.channel = some c)
    (hl : c.listening = true) (hr : c.hasRoom = true) (f : Frame) :
    p.publish f = (⟨some { c with queue := c.queue ++ [f], receiver := .busy }⟩,true) := by
  simp [publish, hc, Channel.send?, hl, hr]

theorem publish_of_full {p : Publisher} {c : Channel Frame} (hc : p.channel = some c)
    (hl : c.listening = true) (hr : ¬ c.hasRoom = true) (f : Frame) : p.publish f = (p,false) := by
  simp [publish, hc, Channel.send?, hl, hr]

theorem publish_of_hungUp {p : Publisher} {c : Channel Frame} (hc : p.channel = some c)
    (hl : ¬ c.listening = true) (f : Frame) : p.publish f = (detached,false) := by
  simp [publish, hc, Channel.send?, hl]

theorem publish_of_no_room {p : Publisher} (h : ¬ p.hasRoom = true) (f : Frame) :
    (p.publish f).2 = false ∧ ((p.publish f).1 = p ∨ (p.publish f).1 = detached) := by
  cases hc : p.channel with
  | none => simp [publish, hc]
  | some c =>
    by_cases hl : c.listening = true
    · have hr : ¬ c.hasRoom = true := fun hr => h (p.hasRoom_iff.mpr ⟨c,hc,hl,hr⟩)
      rw [publish_of_full hc hl hr]
      exact ⟨rfl,.inl rfl⟩
    · rw [publish_of_hungUp hc hl]
      exact ⟨rfl,.inr rfl⟩

theorem receive?_eq_some {p q : Publisher} {f : Frame} (h : p.receive? = some (f,q)) :
    ∃ c rest, p.channel = some c ∧ c.queue = f :: rest ∧
      q = ⟨some { c with queue := rest }⟩ := by
  obtain ⟨channel⟩ := p
  cases channel with
  | none => cases h
  | some c =>
    obtain ⟨capacity,queue,receiver⟩ := c
    cases receiver <;> cases queue <;> cases h <;> exact ⟨_,_,rfl,rfl,rfl⟩

inductive Event where
  | publish (f : Frame)
  | receive
  | hangUp
  deriving DecidableEq

def act (p : Publisher) : Event → Publisher
  | .publish f => (p.publish f).1
  | .receive => (p.receive?.map Prod.snd).getD p
  | .hangUp => p.hangUp

def after (p : Publisher) (past : List Event) : Publisher := History.after act p past

theorem after_cons (p : Publisher) (e : Event) (past : List Event) :
    p.after (e :: past) = (p.after past).act e := rfl

/-- The pictures that were published with the answers to them, the oldest first. -/
def published (p : Publisher) : List Event → List (Frame × Bool)
  | [] => []
  | .publish f :: past => p.published past ++ [(f,((p.after past).publish f).2)]
  | .receive :: past | .hangUp :: past => p.published past

/-- The pictures that were accepted, the oldest first. -/
def accepted (p : Publisher) (past : List Event) : List Frame :=
  ((p.published past).filter Prod.snd).map Prod.fst

/-- The pictures that were received, the oldest first. -/
def received (p : Publisher) : List Event → List Frame
  | [] => []
  | .receive :: past => p.received past ++ ((p.after past).receive?.map Prod.fst).toList
  | .publish _ :: past | .hangUp :: past => p.received past

/-- A publisher before anything happens: without a renderer, or with a channel that has room for so many
pictures, or for all. -/
def opening (link : Option (Option Nat)) : Publisher := ⟨link.map Channel.ofCapacity⟩

theorem accepted_publish (p : Publisher) (past : List Event) (f : Frame) :
    p.accepted (.publish f :: past) =
      p.accepted past ++ if ((p.after past).publish f).2 then [f] else [] := by
  simp only [accepted, published, List.filter_append, List.map_append]
  cases ((p.after past).publish f).2 <;> rfl

/-- Whether the publisher has a channel and its renderer has not hung up. -/
def attended (p : Publisher) : Bool := p.channel.any (·.listening)

theorem unattended_hangUp (p : Publisher) : ¬ p.hangUp.attended = true := by
  obtain ⟨channel⟩ := p
  cases channel <;> exact Bool.false_ne_true

section Unattended
variable {p : Publisher} (h : ¬ p.attended = true)
include h

theorem publish_of_unattended (f : Frame) : p.publish f = (detached,false) := by
  obtain ⟨channel⟩ := p
  cases channel with
  | none => rfl
  | some c => exact publish_of_hungUp rfl h f

theorem receive?_of_unattended : p.receive? = none := by
  obtain ⟨channel⟩ := p
  cases channel with
  | none => rfl
  | some c =>
    have hl : ¬ c.listening = true := h
    simp [receive?, Channel.receive?, hl]

/-- Nobody comes back. -/
theorem unattended_act (e : Event) : ¬ (p.act e).attended = true := by
  cases e with
  | publish f =>
    rw [act, publish_of_unattended h]
    exact Bool.false_ne_true
  | receive =>
    rw [act, receive?_of_unattended h]
    exact h
  | hangUp => exact unattended_hangUp p

end Unattended

theorem unattended_after {link : Option (Option Nat)} {past : List Event}
    (h : link = none ∨ .hangUp ∈ past) : ¬ ((opening link).after past).attended = true := by
  induction past with
  | nil =>
    obtain rfl : link = none := by simpa using h
    exact Bool.false_ne_true
  | cons e past ih =>
    by_cases hp : link = none ∨ .hangUp ∈ past
    · exact unattended_act (ih hp) e
    · obtain rfl : e = .hangUp := by simp_all
      exact unattended_hangUp _

/-- While the renderer is there, the channel holds in their order the pictures that were accepted and
not yet received, and no more than it has room for. -/
theorem after_of_attended (capacity : Option Nat) {past : List Event} (h : .hangUp ∉ past) :
    let p := opening (some capacity)
    ∃ queue, p.after past = ⟨some ⟨capacity,queue,.busy⟩⟩ ∧
      p.accepted past = p.received past ++ queue ∧ ∀ n, capacity = some n → queue.length ≤ n := by
  intro p
  induction past with
  | nil => exact ⟨[],rfl,rfl,fun n _ => Nat.zero_le n⟩
  | cons e past ih =>
    obtain ⟨queue,hp,ha,hn⟩ := ih fun hs => h (List.mem_cons_of_mem e hs)
    cases e with
    | publish f =>
      have hc : (p.after past).channel = some ⟨capacity,queue,.busy⟩ := congrArg channel hp
      rw [after_cons, act, accepted_publish]
      by_cases hr : (⟨capacity,queue,.busy⟩ : Channel Frame).hasRoom = true
      · rw [publish_of_room hc rfl hr]
        refine ⟨queue ++ [f],rfl,?_,?_⟩
        · rw [ha, List.append_assoc]
          rfl
        · intro n hcap
          rw [List.length_append]
          exact (Channel.hasRoom_iff rfl).mp hr n hcap
      · rw [publish_of_full hc rfl hr]
        exact ⟨queue,hp,by rw [ha]; simp [received],hn⟩
    | receive =>
      rw [after_cons, act, received, hp]
      cases queue with
      | nil =>
        refine ⟨[],rfl,?_,hn⟩
        change p.accepted past = p.received past ++ [] ++ []
        rwa [List.append_nil]
      | cons f rest =>
        refine ⟨rest,rfl,?_,fun n hcap => Nat.le_of_succ_le (hn n hcap)⟩
        change p.accepted past = p.received past ++ [f] ++ rest
        rw [ha, List.append_assoc]
        rfl
    | hangUp => exact absurd List.mem_cons_self h

/-- The pictures that arrive are the first of those that were accepted. -/
theorem isPrefix_received (link : Option (Option Nat)) (past : List Event) :
    (opening link).received past <+: (opening link).accepted past := by
  induction past with
  | nil => exact List.prefix_rfl
  | cons e past ih =>
    cases e with
    | publish f =>
      rw [accepted_publish]
      exact ih.trans (List.prefix_append _ _)
    | receive =>
      by_cases hu : link = none ∨ .hangUp ∈ past
      · rw [received, receive?_of_unattended (unattended_after hu), Option.map_none,
          Option.toList_none, List.append_nil]
        exact ih
      · rw [not_or] at hu
        obtain ⟨capacity,rfl⟩ := Option.ne_none_iff_exists'.mp hu.1
        have hpast : .hangUp ∉ Event.receive :: past := by simpa using hu.2
        obtain ⟨queue,-,ha,-⟩ := after_of_attended capacity hpast
        exact ⟨queue,ha.symm⟩
    | hangUp => exact ih

theorem accepted_of_no_renderer (past : List Event) : (opening none).accepted past = [] := by
  induction past with
  | nil => rfl
  | cons e past ih =>
    cases e with
    | publish f =>
      rw [accepted_publish, ih, publish_of_unattended (unattended_after (.inl rfl))]
      rfl
    | receive => exact ih
    | hangUp => exact ih

/-- Publishing succeeds if and only if there is a renderer that has not hung up and its queue has room. -/
theorem publish_after_iff (link : Option (Option Nat)) (past : List Event) (f : Frame) :
    (((opening link).after past).publish f).2 = true ↔
      ∃ capacity, link = some capacity ∧ .hangUp ∉ past ∧ ∀ n, capacity = some n →
        ((opening link).accepted past).length < ((opening link).received past).length + n := by
  by_cases hu : link = none ∨ .hangUp ∈ past
  · rw [publish_of_unattended (unattended_after hu)]
    refine iff_of_false Bool.false_ne_true ?_
    rintro ⟨capacity,rfl,hpast,-⟩
    simp_all
  · rw [not_or] at hu
    obtain ⟨capacity,rfl⟩ := Option.ne_none_iff_exists'.mp hu.1
    obtain ⟨queue,hp,ha,-⟩ := after_of_attended capacity hu.2
    have hc := congrArg channel hp
    have hlen (n : Nat) : queue.length < n ↔
        ((opening (some capacity)).accepted past).length <
          ((opening (some capacity)).received past).length + n := by
      rw [ha, List.length_append, Nat.add_lt_add_iff_left]
    by_cases hr : (⟨capacity,queue,.busy⟩ : Channel Frame).hasRoom = true
    · rw [publish_of_room hc rfl hr]
      rw [Channel.hasRoom_iff rfl] at hr
      exact iff_of_true rfl ⟨capacity,rfl,hu.2,fun n hn => (hlen n).mp (hr n hn)⟩
    · rw [publish_of_full hc rfl hr]
      rw [Channel.hasRoom_iff rfl] at hr
      refine iff_of_false Bool.false_ne_true ?_
      rintro ⟨capacity',hcap,-,h⟩
      obtain rfl := Option.some.inj hcap
      exact hr fun n hn => (hlen n).mpr (h n hn)

/-- A renderer that is there receives the first picture that was accepted and has not arrived yet. -/
theorem receive?_after (link : Option (Option Nat)) {past : List Event} (h : .hangUp ∉ past) :
    ((opening link).after past).receive?.map Prod.fst =
      ((opening link).accepted past)[((opening link).received past).length]? := by
  cases link with
  | none =>
    have hu : ¬ ((opening none).after past).attended = true := unattended_after (.inl rfl)
    rw [receive?_of_unattended hu, accepted_of_no_renderer]
    rfl
  | some capacity =>
    obtain ⟨queue,hp,ha,-⟩ := after_of_attended capacity h
    rw [hp, ha, List.getElem?_append_right (Nat.le_refl _), Nat.sub_self]
    cases queue <;> rfl

/-- A publisher loses pictures but keeps their order, whatever it and its renderer do. It accepts a
picture exactly if it has a renderer that has not hung up, and fewer pictures than its channel has room
for are accepted and not received. What is received are the first of the pictures that were accepted, in
their order, and each time the next of them as long as the renderer is there; a picture that is refused
every time never arrives. The channel never holds more than it has room for, and after the renderer has
hung up nothing is accepted any more. -/
theorem publishes_in_order (link : Option (Option Nat)) :
    let p : Publisher := opening link
    (∀ past f, ((p.after past).publish f).2 = true ↔
      ∃ capacity, link = some capacity ∧ .hangUp ∉ past ∧
        ∀ n, capacity = some n → (p.accepted past).length < (p.received past).length + n) ∧
    (∀ past, p.received past <+: p.accepted past) ∧
    (∀ past, .hangUp ∉ past →
      (p.after past).receive?.map Prod.fst = (p.accepted past)[(p.received past).length]?) ∧
    (∀ past f, (f,true) ∉ p.published past → f ∉ p.received past) ∧
    (∀ past n, link = some (some n) → .hangUp ∉ past →
      (p.accepted past).length ≤ (p.received past).length + n) ∧
    ∀ past f, .hangUp ∈ past → ((p.after past).publish f).2 = false := by
  intro p
  refine ⟨publish_after_iff link,isPrefix_received link,fun past => receive?_after link,?_,?_,?_⟩
  · intro past f hf hr
    have ha := (isPrefix_received link past).subset hr
    simp only [accepted, List.mem_map, List.mem_filter] at ha
    obtain ⟨⟨g,b⟩,⟨hg,rfl⟩,rfl⟩ := ha
    exact hf hg
  · rintro past n rfl h
    obtain ⟨queue,-,ha,hn⟩ := after_of_attended (some n) h
    rw [ha, List.length_append]
    exact Nat.add_le_add_left (hn n rfl) _
  · intro past f h
    rw [publish_of_unattended (unattended_after (.inr h))]

/-- Room for one picture: the second is refused and never arrives, the third is accepted after the first
was received. The renderer then hangs up and misses it, and nothing is accepted any more. -/
theorem publishes_in_order_of_one_place :
    let p := opening (some (some 1))
    let shade (b : UInt8) := Frame.blank.setByte 0 0 b
    let past : List Event := [.publish (shade 3),.receive,.publish (shade 2),.publish (shade 1)]
    let gone : List Event := .hangUp :: past
    p.published past = [(shade 1,true),(shade 2,false),(shade 3,true)] ∧
    (p.after past).receive?.map Prod.fst = some (shade 3) ∧
    (p.accepted past).length ≤ (p.received past).length + 1 ∧
    shade 2 ∉ p.received gone ∧ p.received gone = [shade 1] ∧
    ((p.after gone).publish (shade 4)).2 = false := by
  intro p shade past gone
  have h : p.published past = [(shade 1,true),(shade 2,false),(shade 3,true)] ∧
      p.accepted past = [shade 1,shade 3] ∧ p.received past = [shade 1] ∧
      (shade 2,true) ∉ p.published gone := by decide +kernel
  obtain ⟨hpublished,haccepted,hreceived,hrefused⟩ := h
  obtain ⟨-,-,hnext,hnever,hroom,hgone⟩ := publishes_in_order (some (some 1))
  have hthere : .hangUp ∉ past := by simp [past]
  refine ⟨hpublished,?_,hroom past 1 rfl hthere,hnever gone _ hrefused,hreceived,
    hgone gone _ List.mem_cons_self⟩
  have hr : (p.after past).receive?.map Prod.fst =
      (p.accepted past)[(p.received past).length]? := hnext past hthere
  rw [hr, haccepted, hreceived]
  rfl

end Publisher
end Chip8
