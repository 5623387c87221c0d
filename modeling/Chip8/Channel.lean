/-! First-in first-out channels between a sender who never waits and a receiver who may wait for a value
and may hang up. -/
namespace Chip8

/-- What a receiver does: something else, or wait for a value; or it has hung up. -/
inductive Receiver where
  | busy
  | waiting
  | gone
  deriving DecidableEq

/-- A channel with the values that were accepted and not yet received, the oldest first. -/
structure Channel (α : Type) where
  /-- How many values may be queued; none if there is no limit. -/
  capacity : Option Nat
  queue : List α
  receiver : Receiver
  deriving DecidableEq

namespace Channel
variable {α : Type}

def ofCapacity (capacity : Option Nat) : Channel α := ⟨capacity,[],.busy⟩

/-- Whether the receiver is still there. -/
def listening (c : Channel α) : Bool := c.receiver != .gone

/-- There is room in the queue, or the receiver waits and takes the value without it. -/
def hasRoom (c : Channel α) : Bool :=
  c.receiver == .waiting || c.capacity.all (c.queue.length < ·)

/-- A value is accepted exactly if the receiver is there and there is room; a receiver that waits is
done with waiting then. -/
def send? (c : Channel α) (a : α) : Option (Channel α) :=
  if c.listening && c.hasRoom then some { c with queue := c.queue ++ [a], receiver := .busy } else none

/-- The oldest value and the channel without it; none if nothing is queued or nobody receives. -/
def receive? (c : Channel α) : Option (α × Channel α) :=
  if c.listening then
    match c.queue with
    | [] => none
    | a :: rest => some (a,{ c with queue := rest })
  else none

/-- The receiver begins to wait, unless there is something to receive. -/
def await (c : Channel α) : Channel α :=
  if c.listening && c.queue.isEmpty then { c with receiver := .waiting } else c

/-- A receiver that waits does so no longer. -/
def giveUp (c : Channel α) : Channel α :=
  if c.receiver = .waiting then { c with receiver := .busy } else c

/-- The receiver leaves, and what was queued is lost. -/
def hangUp (c : Channel α) : Channel α := { c with queue := [], receiver := .gone }

theorem send?_eq_none_iff (c : Channel α) (a : α) :
    c.send? a = none ↔ c.receiver = .gone ∨
      (c.receiver = .busy ∧ ∃ n, c.capacity = some n ∧ n ≤ c.queue.length) := by
  cases h : c.capacity with
  | none => cases hr : c.receiver <;> simp [send?, listening, hasRoom, h, hr]
  | some n => cases hr : c.receiver <;> simp [send?, listening, hasRoom, h, hr]

@[simp] theorem queue_await (c : Channel α) : c.await.queue = c.queue := by
  unfold await
  split <;> rfl

@[simp] theorem listening_await (c : Channel α) : c.await.listening = c.listening := by
  obtain ⟨capacity,queue,receiver⟩ := c
  cases receiver <;> cases queue <;> rfl

@[simp] theorem queue_giveUp (c : Channel α) : c.giveUp.queue = c.queue := by
  unfold giveUp
  split <;> rfl

@[simp] theorem listening_giveUp (c : Channel α) : c.giveUp.listening = c.listening := by
  obtain ⟨capacity,queue,receiver⟩ := c
  cases receiver <;> rfl

/-- A channel without places takes a value from the sender only for a receiver that waits. -/
theorem send?_of_no_places {c : Channel α} (h : c.capacity = some 0) (a : α) :
    (c.send? a).isSome ↔ c.receiver = .waiting := by
  rw [Option.isSome_iff_ne_none, ne_eq, send?_eq_none_iff, h]
  cases c.receiver <;> simp

end Channel
end Chip8
