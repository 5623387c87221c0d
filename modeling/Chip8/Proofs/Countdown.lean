import Chip8.Proofs.History
import Chip8.Timer

/-! What is read off a timer, whatever happens to it and in whatever order. The count goes down by
itself while the handle remembers the value it saw last, so the two drift apart; a stop ends the
count and leaves the handle with what it remembers. A history lists what happened, the latest
first. -/
namespace Chip8.Timer

inductive Event where
  | tick
  | set (v : UInt8)
  | get
  | stop
  deriving DecidableEq, Repr

def act (t : Timer) : Event → Timer
  | .tick => t.tick
  | .set v => t.set v
  | .get => t.observe
  | .stop => t.stop

def after (past : List Event) : Timer := History.after act start past

theorem after_cons (e : Event) (past : List Event) : after (e :: past) = (after past).act e := rfl

/-- The values that were set before any stop, the latest first. -/
def accepted : List Event → List UInt8
  | [] => []
  | .set v :: past => if .stop ∈ past then accepted past else v :: accepted past
  | .tick :: past | .get :: past | .stop :: past => accepted past

/-- The value that the countdown started from: the latest one accepted, and zero if there is none. -/
def latest (past : List Event) : UInt8 := (accepted past).headD 0

/-- The ticks since a value was last set, or since the start. -/
def ticks : List Event → Nat
  | [] => 0
  | .set _ :: _ => 0
  | .tick :: past => ticks past + 1
  | .get :: past | .stop :: past => ticks past

/-- What is left of a countdown that nobody stops. -/
def remaining (past : List Event) : Nat := (latest past).toNat - ticks past

/-- The value that the handle saw last: what it set or what it read, whichever came later. -/
def seen : List Event → Nat
  | [] => 0
  | .set v :: _ => v.toNat
  | .get :: past => remaining past
  | .tick :: past | .stop :: past => seen past

theorem tick_running_last (t : Timer) : t.tick.running = t.running ∧ t.tick.last = t.last := by
  unfold tick
  split <;> exact ⟨rfl,rfl⟩

theorem running_act (t : Timer) (e : Event) :
    (t.act e).running = true ↔ t.running = true ∧ e ≠ .stop := by
  cases e with
  | tick => simp [act, tick_running_last]
  | set v =>
    simp only [act, set]
    split <;> simp_all
  | get => simp [act, observe]
  | stop => simp [act, stop]

theorem running_after (past : List Event) : (after past).running = true ↔ .stop ∉ past := by
  induction past with
  | nil => exact iff_of_true rfl List.not_mem_nil
  | cons e past ih =>
    rw [after_cons, running_act, ih, List.mem_cons, not_or, ne_comm, and_comm]

/-- Until it is stopped the timer is at what is left of the countdown, and the handle remembers what
it saw last. -/
theorem after_of_not_stopped {past : List Event} (h : .stop ∉ past) :
    (after past).count.toNat = remaining past ∧ (after past).last.toNat = seen past := by
  induction past with
  | nil => exact ⟨rfl,rfl⟩
  | cons e past ih =>
    have hp : .stop ∉ past := fun hs => h (List.mem_cons_of_mem e hs)
    have hrun := (running_after past).mpr hp
    obtain ⟨hc,hl⟩ := ih hp
    cases e with
    | tick =>
      constructor
      · rw [after_cons, act, toNat_count_tick _ hrun, hc]
        simp only [remaining, latest, accepted, ticks]
        omega
      · rw [after_cons, act, (tick_running_last _).2, hl, seen]
    | set v => simp [after_cons, act, set, hrun, remaining, latest, accepted, hp, ticks, seen]
    | get =>
      refine ⟨hc,?_⟩
      simpa only [after_cons, act, observe, value, hrun, if_true, seen] using hc
    | stop => exact absurd List.mem_cons_self h

/-- Nothing changes a timer that was stopped. -/
theorem act_of_stopped {t : Timer} (h : t.running = false) (e : Event) : t.act e = t := by
  obtain ⟨count,last,running⟩ := t
  obtain rfl : running = false := h
  cases e <;> rfl

theorem after_stop (later past : List Event) :
    after (later ++ .stop :: past) = (after past).stop := by
  rw [after, History.after_append]
  refine History.after_induction (P := (· = (after past).stop)) rfl ?_ later
  rintro t e rfl
  exact act_of_stopped rfl e

/-- Neither what is read now nor what a stop would leave to be read is above `b`. -/
def Within (t : Timer) (b : UInt8) : Prop := t.value ≤ b ∧ t.last ≤ b

theorem within_tick {t : Timer} {b : UInt8} (h : t.Within b) : t.tick.Within b := by
  obtain ⟨hv,hl⟩ := h
  obtain ⟨hrun,hlast⟩ := tick_running_last t
  refine ⟨?_,hlast ▸ hl⟩
  by_cases hr : t.running = true
  · have hc := toNat_count_tick t hr
    simp only [value, hrun, hr, if_true, UInt8.le_iff_toNat_le, hc] at hv ⊢
    omega
  · rwa [value, hrun, if_neg hr, hlast]

/-- Only a set that is accepted makes what is read rise. -/
theorem within_act {t : Timer} {b : UInt8} (h : t.Within b) {e : Event}
    (he : ∀ v, e = .set v → t.running = false) : (t.act e).Within b := by
  cases e with
  | tick => exact within_tick h
  | set v => rwa [act_of_stopped (he v rfl)]
  | get => exact ⟨(value_observe t).symm ▸ h.1,h.1⟩
  | stop => exact ⟨h.2,h.2⟩

theorem accepted_cons (e : Event) (past : List Event) :
    (accepted (e :: past) = accepted past ∧ ∀ v, e = .set v → (after past).running = false) ∨
    ∃ v, accepted (e :: past) = v :: accepted past ∧ (after (e :: past)).Within v := by
  cases e with
  | set v =>
    by_cases hs : .stop ∈ past
    · left
      refine ⟨if_pos hs,fun _ _ => ?_⟩
      rw [← Bool.not_eq_true, running_after]
      exact fun h => h hs
    · right
      refine ⟨v,if_neg hs,?_⟩
      rw [after_cons, act, set, if_pos ((running_after past).mpr hs)]
      simp [Within, value]
  | tick | get | stop => exact .inl ⟨rfl,fun _ h => by cases h⟩

theorem accepted_suffix (later past : List Event) : accepted past <:+ accepted (later ++ past) := by
  induction later with
  | nil => exact List.suffix_rfl
  | cons e later ih =>
    obtain ⟨h,-⟩ | ⟨v,h,-⟩ := accepted_cons e (later ++ past)
    · rwa [List.cons_append, h]
    · rw [List.cons_append, h]
      exact ih.trans (List.suffix_cons v _)

theorem within_after {past : List Event} {b : UInt8} (h : (after past).Within b)
    (later : List Event) (hl : accepted (later ++ past) = accepted past) :
    (after (later ++ past)).Within b := by
  induction later with
  | nil => exact h
  | cons e later ih =>
    obtain ⟨ha,he⟩ | ⟨v,hv,-⟩ := accepted_cons e (later ++ past)
    · exact within_act (ih (ha.symm.trans hl)) he
    · have hlen := (accepted_suffix later past).length_le
      have := congrArg List.length (hv.symm.trans hl)
      simp only [List.length_cons] at this
      omega

theorem within_latest (past : List Event) : (after past).Within (latest past) := by
  induction past with
  | nil => exact ⟨UInt8.le_refl _,UInt8.le_refl _⟩
  | cons e past ih =>
    obtain ⟨ha,he⟩ | ⟨v,hv,hw⟩ := accepted_cons e past
    · rw [latest, ha]
      exact within_act ih he
    · rwa [latest, hv]

/-- A timer is one countdown, whatever the order of events. Up to the first stop it runs, and what is
read is what is left of the latest value set. From then on it does not run, nothing changes it, and
what is read is what the handle saw last. So unless a value is accepted in between no reading is above
an earlier one, and no reading is ever above the latest value accepted. -/
theorem countdown_after :
    (∀ past, .stop ∉ past → (after past).running = true ∧
      (after past).value.toNat = (latest past).toNat - ticks past) ∧
    (∀ past later, .stop ∉ past →
      let t := after (later ++ .stop :: past)
      t.running = false ∧ t.value.toNat = seen past ∧ ∀ e, t.act e = t) ∧
    (∀ past later, accepted (later ++ .get :: past) = accepted past →
      (after (later ++ .get :: past)).value ≤ (after past).value) ∧
    ∀ past, (after past).value ≤ latest past := by
  refine ⟨?_,?_,?_,fun past => (within_latest past).1⟩
  · intro past h
    have hrun := (running_after past).mpr h
    refine ⟨hrun,?_⟩
    rw [value, if_pos hrun]
    exact (after_of_not_stopped h).1
  · intro past later h t
    have ht : t = (after past).stop := after_stop later past
    rw [ht]
    exact ⟨rfl,(after_of_not_stopped h).2,act_of_stopped rfl⟩
  · intro past later h
    have hw : (after (.get :: past)).Within (after past).value :=
      ⟨(value_observe _).symm ▸ UInt8.le_refl _,UInt8.le_refl _⟩
    exact (within_after hw later h).1

/-- The value 9 is set and read off after two ticks; one tick later the timer is stopped, and neither a
set nor a tick then moves it from the 7 that was read. -/
theorem countdown_after_late_stop :
    let past : List Event := [.tick,.get,.tick,.tick,.set 9]
    let t := after ([.set 3,.tick] ++ .stop :: past)
    .stop ∉ past ∧ (after past).value.toNat = 6 ∧ t.running = false ∧ t.value.toNat = 7 ∧
    t.value ≤ (after [.tick,.tick,.set 9]).value := by
  intro past t
  have h : .stop ∉ past := by decide
  obtain ⟨hlive,hstop,hmono,-⟩ := countdown_after
  obtain ⟨hr,hv,-⟩ := hstop past [.set 3,.tick] h
  exact ⟨h,(hlive past h).2,hr,hv,
    hmono [.tick,.tick,.set 9] [.set 3,.tick,.stop,.tick] (by decide)⟩

end Chip8.Timer
