import Chip8.Engine.Basic

/-! A session: an engine running on its own, and the handle by which it is watched and stopped. A stop
is only a request; the engine notices it between two wakes, unless its program has failed by then. -/
namespace Chip8

/-- How far an engine is from its end; a result is the fault that ended it, if any. -/
inductive Phase where
  /-- It wakes and runs batches. -/
  | looping
  | leaving (result : Option Fault)
  | finished (result : Option Fault)
  deriving DecidableEq

structure Session where
  engine : Engine
  phase : Phase
  stopRequested : Bool
  /-- The result that the handle has collected. -/
  collected : Option (Option Fault)
  deriving DecidableEq

namespace Session

/-- Starts an engine on a program, unless it does not fit into memory. -/
def start (program : List UInt8) (publisher : Publisher) (c : Config) (key : ChaCha.Key) :
    Except Fault Session :=
  ((Machine.initial c key).load program).map fun machine =>
    { engine := ⟨machine,Accumulator.ofTimestep c.timestep,publisher⟩
      phase := .looping
      stopRequested := false
      collected := none }

/-- The engine wakes; a fault makes it leave its loop. -/
def wake (s : Session) (script : KeyScript) (elapsed : Duration) : Session :=
  match s.phase with
  | .looping =>
    let (engine,fault) := s.engine.wake script elapsed
    { s with engine := engine, phase := if fault.isSome then .leaving fault else .looping }
  | _ => s

/-- The engine notices a request to stop and leaves its loop without a fault. -/
def notice (s : Session) : Session :=
  match s.phase with
  | .looping => if s.stopRequested then { s with phase := .leaving none } else s
  | _ => s

/-- The engine shuts its machine down and is finished. -/
def finish (s : Session) : Session :=
  match s.phase with
  | .leaving result => { s with engine := s.engine.shutdown, phase := .finished result }
  | _ => s

def tick (s : Session) : Session := { s with engine := s.engine.tick }

/-- The renderer does something at its end of the way that the pictures take. -/
def render (s : Session) (f : Publisher → Publisher) : Session :=
  { s with engine := { s.engine with publisher := f s.engine.publisher } }

def receive? (s : Session) : Option (Frame × Session) :=
  s.engine.publisher.receive?.map fun (f,publisher) => (f,s.render fun _ => publisher)

def requestStop (s : Session) : Session := { s with stopRequested := true }

/-- The handle collects the result of an engine that is finished. -/
def collect (s : Session) : Session :=
  match s.phase with
  | .finished result => if s.collected.isNone then { s with collected := some result } else s
  | _ => s

/-- Whether the engine still runs, as far as the handle can see. -/
def isRunning (s : Session) : Bool :=
  s.collected.isNone && match s.phase with
    | .finished _ => false
    | _ => true

/-- Asks the engine to stop and waits for it to finish. -/
def stop (s : Session) : Session := s.requestStop.notice.finish.collect

/-- The fault that ended the engine, if any, as far as the handle knows. -/
def outcome (s : Session) : Option Fault := s.collected.join

end Session
end Chip8
