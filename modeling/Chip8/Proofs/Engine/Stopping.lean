import Chip8.Engine.Session
import Chip8.Proofs.Engine.Offering
import Chip8.Proofs.History

/-! Stopping an engine whose program may fail by itself. The engine and its handle meet in two places
only: between two wakes the engine looks whether a stop was requested, and the handle sees when the
engine is finished. What either of them does in between is one event, and the events of both come in any
order; one that is not possible at the time changes nothing. A history lists what happened, the latest
first. -/
namespace Chip8

/-- The result with which the engine left its loop, if it did. -/
def Phase.result? : Phase → Option (Option Fault)
  | .looping => none
  | .leaving result | .finished result => some result

namespace Session

/-- The batch that a wake runs; none if the engine has left its loop or cannot bank the time. -/
def batch? (s : Session) (script : KeyScript) (elapsed : Duration) : Option Batch :=
  match s.phase with
  | .looping => s.engine.batch? script elapsed
  | _ => none

/-- A wake ends a loop that goes on with the fault that it meets, if it meets one. -/
theorem result?_wake (s : Session) (script : KeyScript) (elapsed : Duration) :
    (s.wake script elapsed).phase.result? =
      s.phase.result?.or ((s.engine.wake script elapsed).2.map some) := by
  cases hp : s.phase with
  | looping =>
    simp only [wake, hp, Phase.result?, Option.none_or]
    cases (s.engine.wake script elapsed).2 <;> rfl
  | leaving r => simp [wake, hp, Phase.result?]
  | finished r => simp [wake, hp, Phase.result?]

theorem result?_notice (s : Session) :
    s.notice.phase.result? = s.phase.result?.or (if s.stopRequested then some none else none) := by
  cases hp : s.phase with
  | looping => by_cases hs : s.stopRequested <;> simp [notice, hp, hs, Phase.result?]
  | leaving r => simp [notice, hp, Phase.result?]
  | finished r => simp [notice, hp, Phase.result?]

theorem result?_finish (s : Session) : s.finish.phase.result? = s.phase.result? := by
  cases hp : s.phase <;> simp [finish, hp, Phase.result?]

/-- Collecting the result of an engine that is finished leaves all but the result as it was. -/
theorem collect_eq (s : Session) : ∃ result, s.collect = { s with collected := result } := by
  unfold collect
  split
  · split
    · exact ⟨_,rfl⟩
    · exact ⟨_,rfl⟩
  · exact ⟨_,rfl⟩

theorem phase_collect (s : Session) : s.collect.phase = s.phase := by
  obtain ⟨_,h⟩ := s.collect_eq
  rw [h]

theorem phase_wake_eq_finished_iff (s : Session) (script : KeyScript) (elapsed : Duration)
    (r : Option Fault) : (s.wake script elapsed).phase = .finished r ↔ s.phase = .finished r := by
  cases hp : s.phase with
  | looping =>
    simp only [wake, hp]
    cases (s.engine.wake script elapsed).2 <;> simp
  | leaving r' => simp [wake, hp]
  | finished r' => simp [wake, hp]

theorem phase_notice_eq_finished_iff (s : Session) (r : Option Fault) :
    s.notice.phase = .finished r ↔ s.phase = .finished r := by
  cases hp : s.phase with
  | looping => by_cases hs : s.stopRequested <;> simp [notice, hp, hs]
  | leaving r' => simp [notice, hp]
  | finished r' => simp [notice, hp]

theorem phase_finish_eq_finished_iff (s : Session) (r : Option Fault) :
    s.finish.phase = .finished r ↔ s.phase = .finished r ∨ s.phase = .leaving r := by
  cases hp : s.phase <;> simp [finish, hp]

end Session

/-- A session, and what came of the calls through its handle, the oldest first. -/
structure Watch where
  session : Session
  /-- Whether a call that stops the engine waits for it to finish. -/
  waiting : Bool
  /-- What the calls that stop the engine have returned. -/
  results : List (Option Fault)
  /-- What the handle said when it was asked whether the engine runs. -/
  answers : List Bool
  /-- The steps that the machine has run. -/
  steps : Nat

namespace Watch

inductive Event where
  /-- The loop of the engine goes round once. -/
  | wake (script : KeyScript) (elapsed : Duration)
  /-- The engine looks for a request and leaves its loop if there is one. -/
  | notice
  /-- The engine, having left its loop, shuts down and ends. -/
  | finish
  | tick
  /-- The renderer does something at its end of the channel. -/
  | render (f : Publisher → Publisher)
  /-- A call that stops the engine makes its request and begins to wait. -/
  | callStop
  /-- The call that waits returns. -/
  | returnStop
  | askRunning

def Event.isCallStop : Event → Bool
  | .callStop => true
  | _ => false

def begin (s : Session) : Watch := ⟨s,false,[],[],0⟩

/-- While a call waits no other one is made: to stop once more changes nothing, and to ask gives no answer. -/
def next (w : Watch) : Event → Watch
  | .wake script elapsed =>
    { w with
      session := w.session.wake script elapsed
      steps := w.steps + (w.session.batch? script elapsed).elim 0 (·.steps) }
  | .notice => { w with session := w.session.notice }
  | .finish => { w with session := w.session.finish }
  | .tick => { w with session := w.session.tick }
  | .render f => { w with session := w.session.render f }
  | .callStop => { w with session := w.session.requestStop, waiting := true }
  | .returnStop =>
    match w.waiting, w.session.phase with
    | true, .finished _ =>
      let session := w.session.collect
      { w with session := session, waiting := false, results := w.results ++ [session.outcome] }
    | _, _ => w
  | .askRunning => if w.waiting then w else { w with answers := w.answers ++ [w.session.isRunning] }

def after (w : Watch) (past : List Event) : Watch := History.after next w past

theorem after_cons (w : Watch) (e : Event) (past : List Event) :
    w.after (e :: past) = (w.after past).next e := rfl

theorem after_append (w : Watch) (later past : List Event) :
    w.after (later ++ past) = (w.after past).after later := History.after_append w later past

/-- How an event ends the loop of the engine, if it does and the loop has gone on until then. -/
def ends (w : Watch) (past : List Event) : Event → Option (Option Fault)
  | .wake script elapsed => ((w.after past).session.engine.wake script elapsed).2.map some
  | .notice => if past.any Event.isCallStop then some none else none
  | _ => none

/-- How the loop of the engine has ended: with the fault of a wake, or without one on a request. The
first event that ends it decides. -/
def ending (w : Watch) : List Event → Option (Option Fault)
  | [] => none
  | e :: past => (w.ending past).or (w.ends past e)

/-- At some point of the history there was such an event after such a past. -/
def Happened (P : Event → List Event → Prop) (past : List Event) : Prop :=
  ∃ later e earlier, past = later ++ e :: earlier ∧ P e earlier

theorem happened_cons (P : Event → List Event → Prop) (e : Event) (past : List Event) :
    Happened P (e :: past) ↔ P e past ∨ Happened P past := by
  constructor
  · rintro ⟨later,x,earlier,h,hp⟩
    obtain ⟨rfl,hx⟩ | ⟨later,rfl,hx⟩ := List.cons_eq_append_iff.mp h
    · obtain ⟨rfl,rfl⟩ := List.cons.inj hx
      exact .inl hp
    · exact .inr ⟨later,x,earlier,hx,hp⟩
  · rintro (hp | ⟨later,x,earlier,rfl,hp⟩)
    · exact ⟨[],e,past,rfl,hp⟩
    · exact ⟨e :: later,x,earlier,rfl,hp⟩

theorem happened_congr {P Q : Event → List Event → Prop} (h : ∀ e earlier, P e earlier ↔ Q e earlier)
    (past : List Event) : Happened P past ↔ Happened Q past := by
  simp only [Happened, h]

theorem ending_eq_some_iff (w : Watch) (past : List Event) (r : Option Fault) :
    w.ending past = some r ↔
      Happened (fun e earlier => w.ending earlier = none ∧ w.ends earlier e = some r) past := by
  induction past with
  | nil => simp [ending, Happened]
  | cons e past ih =>
    rw [happened_cons, ← ih, ending, Option.or_eq_some_iff, or_comm]

/-- What an event does to the phase. -/
theorem phase_next (w : Watch) (e : Event) :
    (w.next e).session.phase =
      match e with
      | .wake script elapsed => (w.session.wake script elapsed).phase
      | .notice => w.session.notice.phase
      | .finish => w.session.finish.phase
      | _ => w.session.phase := by
  cases e with
  | wake script elapsed => rfl
  | notice => rfl
  | finish => rfl
  | tick => rfl
  | render f => rfl
  | callStop => rfl
  | returnStop =>
    simp only [next]
    split
    · exact w.session.phase_collect
    · rfl
  | askRunning =>
    simp only [next]
    split <;> rfl

theorem stopRequested_next (w : Watch) (e : Event) :
    (w.next e).session.stopRequested = (e.isCallStop || w.session.stopRequested) := by
  cases e with
  | wake script elapsed =>
    simp only [next, Session.wake]
    split <;> rfl
  | notice =>
    simp only [next, Session.notice]
    split
    · split <;> rfl
    · rfl
  | finish =>
    simp only [next, Session.finish]
    split <;> rfl
  | tick => rfl
  | render f => rfl
  | callStop => rfl
  | returnStop =>
    simp only [next]
    split
    · simp only [Session.collect]
      split
      · split <;> rfl
      · rfl
    · rfl
  | askRunning =>
    simp only [next]
    split <;> rfl

theorem stopRequested_after {s : Session} (h : s.stopRequested = false) (past : List Event) :
    ((begin s).after past).session.stopRequested = past.any Event.isCallStop := by
  induction past with
  | nil => exact h
  | cons e past ih => rw [after_cons, stopRequested_next, ih, List.any_cons]

/-- The phase records how the loop has ended. -/
theorem result?_after {s : Session} (hp : s.phase = .looping) (hs : s.stopRequested = false)
    (past : List Event) :
    ((begin s).after past).session.phase.result? = (begin s).ending past := by
  induction past with
  | nil => exact congrArg Phase.result? hp
  | cons e past ih =>
    rw [after_cons, phase_next, ending, ← ih]
    cases e with
    | wake script elapsed => exact Session.result?_wake _ _ _
    | notice =>
      rw [ends, ← stopRequested_after hs]
      exact Session.result?_notice _
    | finish => exact (Session.result?_finish _).trans (Option.or_none).symm
    | tick | render | callStop | returnStop | askRunning => exact (Option.or_none).symm

theorem finished_next_iff (w : Watch) (e : Event) (r : Option Fault) :
    (w.next e).session.phase = .finished r ↔
      w.session.phase = .finished r ∨ (e = .finish ∧ w.session.phase = .leaving r) := by
  rw [phase_next]
  cases e with
  | wake script elapsed => simpa using Session.phase_wake_eq_finished_iff _ _ _ _
  | notice => simpa using Session.phase_notice_eq_finished_iff _ _
  | finish => simpa using Session.phase_finish_eq_finished_iff _ _
  | tick | render | callStop | returnStop | askRunning => simp

/-- The engine has ended after it left its loop. -/
def Exited (w : Watch) (past : List Event) : Prop :=
  Happened (fun e earlier => e = .finish ∧ w.ending earlier ≠ none) past

theorem exited_iff {s : Session} (hp : s.phase = .looping) (hs : s.stopRequested = false)
    (past : List Event) :
    (begin s).Exited past ↔ ∃ r, ((begin s).after past).session.phase = .finished r := by
  induction past with
  | nil => simp [Exited, Happened, after, History.after, begin, hp]
  | cons e past ih =>
    rw [Exited, happened_cons, ← Exited, ih, ← result?_after hp hs]
    simp only [after_cons, finished_next_iff]
    cases ((begin s).after past).session.phase <;> simp [Phase.result?, or_comm]

/-- What the handle has collected and said agrees with the engine, and an engine that is finished has
its timers stopped. -/
structure Sound (w : Watch) : Prop where
  collected : ∀ r, w.session.collected = some r → w.session.phase = .finished r
  results : ∀ r ∈ w.results, w.session.phase = .finished r
  answers : false ∈ w.answers → ∃ r, w.session.phase = .finished r
  timers : ∀ r, w.session.phase = .finished r →
    w.session.engine.machine.delay.running = false ∧ w.session.engine.machine.sound.running = false

theorem isRunning_eq_false_iff {w : Watch} (h : w.Sound) :
    w.session.isRunning = false ↔ ∃ r, w.session.phase = .finished r := by
  cases hc : w.session.collected with
  | none => cases hp : w.session.phase <;> simp [Session.isRunning, hc, hp]
  | some r => simp [Session.isRunning, hc, h.collected r hc]

/-- What an engine that is finished does: nothing, and its machine stays as it was. -/
theorem next_of_finished {w : Watch} (h : w.Sound) {r : Option Fault}
    (hp : w.session.phase = .finished r) (e : Event) :
    (w.next e).session.engine.machine = w.session.engine.machine ∧ (w.next e).steps = w.steps := by
  cases e with
  | wake script elapsed => simp [next, Session.wake, Session.batch?, hp]
  | notice => simp [next, Session.notice, hp]
  | finish => simp [next, Session.finish, hp]
  | tick =>
    obtain ⟨hd,hs⟩ := h.timers r hp
    simp [next, Session.tick, Engine.tick, Machine.tick, Timer.tick, hd, hs]
  | render f => exact ⟨rfl,rfl⟩
  | callStop => exact ⟨rfl,rfl⟩
  | returnStop =>
    obtain ⟨_,hc⟩ := w.session.collect_eq
    simp only [next]
    split
    · rw [hc]
      exact ⟨rfl,rfl⟩
    · exact ⟨rfl,rfl⟩
  | askRunning =>
    simp only [next]
    split <;> exact ⟨rfl,rfl⟩

theorem sound_begin {s : Session} (hp : s.phase = .looping) (hc : s.collected = none) :
    (begin s).Sound where
  collected := by simp [begin, hc]
  results := by simp [begin]
  answers := by simp [begin]
  timers := by simp [begin, hp]

/-- A call that waits returns the result of an engine that is finished, each time the same. -/
theorem next_returnStop {w : Watch} (h : w.Sound) (hw : w.waiting = true) {r : Option Fault}
    (hp : w.session.phase = .finished r) :
    w.next .returnStop = { w with
      session := { w.session with collected := some r }
      waiting := false
      results := w.results ++ [r] } := by
  have hcollect : w.session.collect = { w.session with collected := some r } := by
    cases hc : w.session.collected with
    | none => simp [Session.collect, hp, hc]
    | some r' =>
      have hr : r' = r := by simpa [hp] using (h.collected r' hc).symm
      have hsame : w.session.collect = w.session := by simp [Session.collect, hp, hc]
      rw [hsame, ← hr, ← hc]
  simp only [next, hw, hp, hcollect]
  rfl

theorem next_returnStop_cases (w : Watch) :
    w.next .returnStop = w ∨ w.waiting = true ∧ ∃ r, w.session.phase = .finished r := by
  simp only [next]
  split
  · rename_i hw hp
    exact .inr ⟨hw,_,hp⟩
  · exact .inl rfl

/-- Nothing but the calls through the handle changes what the handle has collected and said. -/
theorem next_of_not_handle (w : Watch) {e : Event} (hr : e ≠ .returnStop) (ha : e ≠ .askRunning) :
    (w.next e).session.collected = w.session.collected ∧ (w.next e).results = w.results ∧
    (w.next e).answers = w.answers := by
  cases e with
  | wake script elapsed =>
    refine ⟨?_,rfl,rfl⟩
    simp only [next, Session.wake]
    split <;> rfl
  | notice =>
    refine ⟨?_,rfl,rfl⟩
    simp only [next, Session.notice]
    split
    · split <;> rfl
    · rfl
  | finish =>
    refine ⟨?_,rfl,rfl⟩
    simp only [next, Session.finish]
    split <;> rfl
  | tick | render | callStop => exact ⟨rfl,rfl,rfl⟩
  | returnStop => exact absurd rfl hr
  | askRunning => exact absurd rfl ha

/-- What the handle has collected and said it has collected and said before, or an engine that is
finished is the reason for it. -/
theorem handle_next {w : Watch} (h : w.Sound) (e : Event) :
    (∀ r, (w.next e).session.collected = some r →
      w.session.collected = some r ∨ w.session.phase = .finished r) ∧
    (∀ r ∈ (w.next e).results, r ∈ w.results ∨ w.session.phase = .finished r) ∧
    (false ∈ (w.next e).answers → false ∈ w.answers ∨ w.session.isRunning = false) := by
  by_cases hr : e = .returnStop
  · subst hr
    obtain hn | ⟨hw,r,hp⟩ := w.next_returnStop_cases
    · rw [hn]
      exact ⟨fun _ => .inl,fun _ => .inl,.inl⟩
    · rw [next_returnStop h hw hp]
      refine ⟨?_,?_,.inl⟩
      · rintro r' ⟨⟩
        exact .inr hp
      · intro r' hmem
        refine (List.mem_append.mp hmem).imp_right fun hr => ?_
        rw [List.mem_singleton.mp hr]
        exact hp
  · by_cases ha : e = .askRunning
    · subst ha
      simp only [next]
      split
      · exact ⟨fun _ => .inl,fun _ => .inl,.inl⟩
      · refine ⟨fun _ => .inl,fun _ => .inl,fun hmem => ?_⟩
        exact (List.mem_append.mp hmem).imp_right fun hr => (List.mem_singleton.mp hr).symm
    · obtain ⟨hc,hres,hans⟩ := w.next_of_not_handle hr ha
      rw [hc, hres, hans]
      exact ⟨fun _ => .inl,fun _ => .inl,.inl⟩

theorem sound_next {w : Watch} (h : w.Sound) (e : Event) : (w.next e).Sound := by
  have hstays {r} (hp : w.session.phase = .finished r) : (w.next e).session.phase = .finished r :=
    (w.finished_next_iff e r).mpr (.inl hp)
  obtain ⟨hcollected,hresults,hanswers⟩ := handle_next h e
  refine ⟨?_,?_,?_,?_⟩
  · intro r hr
    exact hstays ((hcollected r hr).elim (h.collected r) id)
  · intro r hr
    exact hstays ((hresults r hr).elim (h.results r) id)
  · intro ha
    obtain ⟨r,hp⟩ := (hanswers ha).elim h.answers (isRunning_eq_false_iff h).mp
    exact ⟨r,hstays hp⟩
  · intro r hr
    obtain hp | ⟨rfl,hp⟩ := (w.finished_next_iff e r).mp hr
    · rw [(next_of_finished h hp e).1]
      exact h.timers r hp
    · simp [next, Session.finish, hp, Engine.shutdown, Machine.shutdown, Timer.stop]

theorem sound_after {w : Watch} (h : w.Sound) (past : List Event) : (w.after past).Sound :=
  History.after_induction h (fun _ e h => sound_next h e) past

/-- An engine that is finished stays so with its result, its machine and its number of steps. -/
theorem after_of_finished {w : Watch} (h : w.Sound) {r : Option Fault}
    (hp : w.session.phase = .finished r) (later : List Event) :
    (w.after later).session.phase = .finished r ∧
    (w.after later).session.engine.machine = w.session.engine.machine ∧
    (w.after later).steps = w.steps := by
  induction later with
  | nil => exact ⟨hp,rfl,rfl⟩
  | cons e later ih =>
    obtain ⟨hphase,hmachine,hsteps⟩ := ih
    obtain ⟨hm,hs⟩ := next_of_finished (sound_after h later) hphase e
    exact ⟨((w.after later).finished_next_iff e r).mpr (.inl hphase),hm.trans hmachine,hs.trans hsteps⟩

/-- A wake met the fault while the loop of the engine went on. -/
def BrokeWith (w : Watch) (f : Fault) (past : List Event) : Prop :=
  Happened (fun e earlier => w.ending earlier = none ∧ ∃ script elapsed, e = .wake script elapsed ∧
    ((w.after earlier).session.engine.wake script elapsed).2 = some f) past

/-- The engine noticed a request while its loop went on. -/
def ActedOnStop (w : Watch) (past : List Event) : Prop :=
  Happened (fun e earlier => w.ending earlier = none ∧ e = .notice ∧
    earlier.any Event.isCallStop = true) past

theorem brokeWith_iff (w : Watch) (f : Fault) (past : List Event) :
    w.BrokeWith f past ↔ w.ending past = some (some f) := by
  rw [ending_eq_some_iff, BrokeWith]
  refine happened_congr (fun e earlier => and_congr_right fun _ => ?_) past
  cases e with
  | wake script elapsed =>
    rw [ends, Option.map_eq_some_iff]
    constructor
    · rintro ⟨_,_,⟨⟩,hf⟩
      exact ⟨f,hf,rfl⟩
    · rintro ⟨_,hf,⟨⟩⟩
      exact ⟨script,elapsed,rfl,hf⟩
  | notice => by_cases hs : earlier.any Event.isCallStop <;> simp [ends, hs]
  | finish | tick | render | callStop | returnStop | askRunning => simp [ends]

theorem actedOnStop_iff (w : Watch) (past : List Event) :
    w.ActedOnStop past ↔ w.ending past = some none := by
  rw [ending_eq_some_iff, ActedOnStop]
  refine happened_congr (fun e earlier => ?_) past
  cases e <;> simp [ends]

/-- A request that the engine acts on at once, unless it has left its loop by then. -/
theorem exists_phase_finish (s : Session) : ∃ r, s.requestStop.notice.finish.phase = .finished r := by
  obtain ⟨engine,phase,requested,collected⟩ := s
  cases phase <;> exact ⟨_,rfl⟩

/-- Nothing keeps a call from returning: the engine need only look for the request and end. -/
theorem after_stop (w : Watch) :
    (w.after [.returnStop,.finish,.notice,.callStop]).session = w.session.stop ∧
    (w.after [.returnStop,.finish,.notice,.callStop]).results =
      w.results ++ [w.session.stop.outcome] := by
  obtain ⟨r,hr⟩ := exists_phase_finish w.session
  simp only [after, History.after, List.foldr, next, hr]
  exact ⟨rfl,rfl⟩

end Watch

theorem Session.of_start {program : List UInt8} {p : Publisher} {c : Config} {key : ChaCha.Key}
    {s : Session} (h : start program p c key = .ok s) :
    s.phase = .looping ∧ s.stopRequested = false ∧ s.collected = none := by
  unfold start at h
  cases hl : (Machine.initial c key).load program with
  | error f =>
    rw [hl] at h
    cases h
  | ok m =>
    rw [hl] at h
    cases h
    exact ⟨rfl,rfl,rfl⟩

namespace Watch

/-- A session has one outcome, in whatever order the wakes of its engine, the end of its loop and the
calls through its handle come. All calls that stop it return the same result: a fault if and only if a
wake met that fault before the engine acted on a request, and none if and only if it acted on one. The
handle says that the engine runs until the engine has ended; once it has said otherwise, or a call that
stops the engine has returned, it never says so again. After such a call has returned the machine runs no
step and stays as it is. And a call to stop the engine always can return, with what a stop gives that
the engine acts on at once. -/
theorem one_outcome {program : List UInt8} {p : Publisher} {c : Config} {key : ChaCha.Key}
    {s : Session} (h : Session.start program p c key = .ok s) :
    let w := begin s
    (∀ past, ∀ r ∈ (w.after past).results,
      (∀ f, r = some f ↔ w.BrokeWith f past) ∧ (r = none ↔ w.ActedOnStop past) ∧
      ∀ later, ∀ r' ∈ (w.after (later ++ past)).results, r' = r) ∧
    (∀ past, (w.after past).session.isRunning = false ↔ w.Exited past) ∧
    (∀ past, false ∈ (w.after past).answers ∨ (w.after past).results ≠ [] →
      ∀ later, (w.after (later ++ past)).session.isRunning = false) ∧
    (∀ past, (w.after past).results ≠ [] → ∀ later,
      (w.after (later ++ past)).steps = (w.after past).steps ∧
      (w.after (later ++ past)).session.engine.machine = (w.after past).session.engine.machine) ∧
    ∀ past,
      let now := w.after past
      let stopped := w.after ([.returnStop,.finish,.notice,.callStop] ++ past)
      stopped.session = now.session.stop ∧
      stopped.results = now.results ++ [now.session.stop.outcome] := by
  intro w
  obtain ⟨hp,hs,hc⟩ := Session.of_start h
  have hsound (past) : (w.after past).Sound := sound_after (sound_begin hp hc) past
  have hstays (past) {r} (hr : (w.after past).session.phase = .finished r) (later) :=
    after_of_finished (hsound past) hr later
  refine ⟨?_,?_,?_,?_,?_⟩
  · intro past r hr
    have hphase := (hsound past).results r hr
    have hending : w.ending past = some r := by
      rw [← result?_after hp hs, hphase]
      rfl
    refine ⟨?_,?_,?_⟩
    · intro f
      rw [brokeWith_iff, hending, Option.some.injEq]
    · rw [actedOnStop_iff, hending, Option.some.injEq]
    · intro later r' hr'
      have hlater := (hsound (later ++ past)).results r' hr'
      rw [after_append, (hstays past hphase later).1] at hlater
      exact (Phase.finished.inj hlater).symm
  · intro past
    rw [isRunning_eq_false_iff (hsound past), exited_iff hp hs]
  · intro past hover later
    have hfinished : ∃ r, (w.after past).session.phase = .finished r := by
      obtain ha | hne := hover
      · exact (hsound past).answers ha
      · obtain ⟨r,hr⟩ := List.exists_mem_of_ne_nil _ hne
        exact ⟨r,(hsound past).results r hr⟩
    obtain ⟨r,hr⟩ := hfinished
    rw [isRunning_eq_false_iff (hsound _), after_append]
    exact ⟨r,(hstays past hr later).1⟩
  · intro past hne later
    obtain ⟨r,hr⟩ := List.exists_mem_of_ne_nil _ hne
    obtain ⟨-,hm,hsteps⟩ := hstays past ((hsound past).results r hr) later
    rw [after_append]
    exact ⟨hsteps,hm⟩
  · intro past now stopped
    have hstopped : stopped = now.after [.returnStop,.finish,.notice,.callStop] := after_append _ _ _
    rw [hstopped]
    exact now.after_stop

/-- The program fails in the first wake, after a stop was requested and before the engine looks for the
request: the call returns the fault, and so does every later one. -/
theorem one_outcome_of_late_request :
    let program : List UInt8 := [0xE0,0x00]
    let c : Config := { Config.standard with timestep := ⟨10,by decide⟩ }
    let s : Session :=
      ⟨⟨Machine.holding program,Accumulator.ofTimestep c.timestep,Publisher.detached⟩,
        .looping,false,none⟩
    let wake := Event.wake (KeyScript.const Keypad.released) ⟨15,by decide⟩
    let past := [.returnStop,.finish,.notice,.callStop,wake,.callStop]
    let w := begin s
    Session.start program Publisher.detached c (Vector.replicate 8 0) = .ok s ∧
    (w.after past).results = [some (.unknownOpcode 0xE000 0x200)] ∧
    ∀ later, (w.after (later ++ past)).session.isRunning = false ∧
      (w.after (later ++ past)).steps = (w.after past).steps ∧
      ∀ r ∈ (w.after (later ++ past)).results, r = some (.unknownOpcode 0xE000 0x200) := by
  intro program c s wake past w
  have hstart : Session.start program Publisher.detached c (Vector.replicate 8 0) = .ok s := rfl
  obtain ⟨hone,-,hover,hsteps,hreturn⟩ := one_outcome hstart
  let paid : Accumulator := { s.engine.bank with banked := ⟨15,by decide⟩ }
  let b := (Batch.begin s.engine.machine paid).drain (KeyScript.const Keypad.released)
  have hb : s.engine.batch? (KeyScript.const Keypad.released) ⟨15,by decide⟩ = some b := rfl
  have hfault : b.fault = some (.unknownOpcode 0xE000 0x200) := by
    have hrun : b.toOutcome =
        (s.engine.machine.run (KeyScript.const Keypad.released) 1).toOutcome :=
      Engine.toOutcome_of_batch? hb rfl (by decide) (by decide)
    refine (congrArg Outcome.fault hrun).trans ?_
    decide +kernel
  have hbroke : w.BrokeWith (.unknownOpcode 0xE000 0x200) past := by
    refine ⟨[.returnStop,.finish,.notice,.callStop],wake,[.callStop],rfl,rfl,_,_,rfl,?_⟩
    change (s.engine.wake _ _).2 = _
    rw [Engine.wake_of_batch? hb, if_pos (Option.isSome_iff_ne_none.mpr (by simp [hfault]))]
    exact hfault
  have hresults : (w.after past).results = [(w.after [wake,.callStop]).session.stop.outcome] :=
    (hreturn [wake,.callStop]).2
  have hmem : (w.after [wake,.callStop]).session.stop.outcome ∈ (w.after past).results := by
    rw [hresults]
    exact List.mem_singleton_self _
  obtain ⟨hiff,-,hsame⟩ := hone past _ hmem
  have houtcome := (hiff _).mpr hbroke
  have hne : (w.after past).results ≠ [] := List.ne_nil_of_mem hmem
  refine ⟨hstart,hresults.trans (congrArg ([·]) houtcome),fun later => ?_⟩
  exact ⟨hover past (.inr hne) later,(hsteps past hne later).1,
    fun r hr => (hsame later r hr).trans houtcome⟩

end Watch
end Chip8
