import Chip8.Engine.Session
import Chip8.Terminal.Options
import Chip8.Terminal.Screen

/-! Runs a program in a terminal. Keys are typed as lines; those of a line are held down together for
a tenth of a second. An empty line, or the end of the input, ends the program. -/
namespace Chip8.Terminal

/-- What the keyboard has said last: the keys of the latest line and when they go up again, or that
it is time to end. -/
structure Typed where
  keys : Keypad
  heldUntil : Nat
  ended : Bool

/-- How long the keys of a line are held down, in nanoseconds. -/
def holdNanos : Nat := nanosPerSecond / 10

partial def listen (typed : IO.Ref Typed) : IO Unit := do
  let line := (← (← IO.getStdin).getLine).trimAscii.toString
  if line.isEmpty then
    typed.set ⟨Keypad.released,0,true⟩
  else
    typed.set ⟨Keypad.ofTyped line.toList,(← IO.monoNanosNow) + holdNanos,false⟩
    listen typed

/-- Shows a picture from the top left corner of the terminal on. -/
def present (f : Frame) (scale : Nat) : IO Unit := do
  let out ← IO.getStdout
  out.putStr "\x1b[H"
  for line in f.lines scale do out.putStrLn line
  out.flush

/-- Wakes the session again and again, until it ends or the keyboard ends it, and waits for a picture
each time; `last` is the time of the last wake and `ticked` of the last tick of the timers. -/
partial def loop (typed : IO.Ref Typed) (o : Options) (s : Session) (last ticked : Nat) :
    IO Session := do
  IO.sleep (UInt32.ofNat (o.config.batchInterval.nanos / 1000000))
  let now ← IO.monoNanosNow
  let t ← typed.get
  let keys := if now < t.heldUntil then t.keys else Keypad.released
  let elapsed := (Duration.ofParts? 0 (now - last)).getD Duration.zero
  let s := ((s.render Publisher.await).wake (KeyScript.const keys) elapsed).finish
  let ticks := (now - ticked) / max o.config.timerInterval.nanos 1
  let s := Nat.repeat Session.tick ticks s
  let s ← match s.receive? with
    | none => pure (s.render Publisher.giveUp)
    | some (f,s) => present f o.scale *> pure s
  if t.ended || !s.isRunning then return s
  else loop typed o s now (ticked + ticks * max o.config.timerInterval.nanos 1)

/-- A key from the host's source of randomness. -/
def randomKey : IO ChaCha.Key := do
  let bytes ← IO.getRandomBytes 32
  return Vector.ofFn fun i : Fin 8 =>
    (List.range 4).foldl (fun w k => w * 256 + (bytes[4*i.val + k]?.getD 0).toUInt32) 0

def run (o : Options) : IO UInt32 := do
  let program ← IO.FS.readBinFile o.program
  match Session.start program.toList (Publisher.toChannel (some 0)) o.config (← randomKey) with
  | .error f => IO.eprintln f.message *> return 1
  | .ok s =>
    let typed ← IO.mkRef ⟨Keypad.released,0,false⟩
    let _ ← IO.asTask (listen typed)
    let now ← IO.monoNanosNow
    match (← loop typed o s now now).stop.outcome with
    | none => return 0
    | some f => IO.eprintln f.message *> return 1

end Chip8.Terminal

def main (arguments : List String) : IO UInt32 := do
  match Chip8.Options.ofArguments arguments with
  | .error e => IO.eprintln e.message *> return 2
  | .ok o => Chip8.Terminal.run o
