/-! What a history of events makes of a state. A history lists what happened, the latest first. -/
namespace Chip8.History
variable {σ ε : Type} {next : σ → ε → σ}

/-- The state after a history that began at `s`, where `next` says what an event makes of a state. -/
def after (next : σ → ε → σ) (s : σ) (past : List ε) : σ := past.foldr (fun e now => next now e) s

/-- A history goes on from where the one before it has come to. -/
theorem after_append (s : σ) (later past : List ε) :
    after next s (later ++ past) = after next (after next s past) later := List.foldr_append

theorem after_replicate (s : σ) (e : ε) (n : Nat) :
    after next s (List.replicate (n+1) e) = after next (next s e) (List.replicate n e) := by
  rw [List.replicate_succ', after_append]
  rfl

/-- What holds at the beginning and is kept by every event holds after every history. -/
theorem after_induction {P : σ → Prop} {s : σ} (h : P s) (hnext : ∀ s e, P s → P (next s e))
    (past : List ε) : P (after next s past) := by
  induction past with
  | nil => exact h
  | cons e past ih => exact hnext _ e ih

end Chip8.History
