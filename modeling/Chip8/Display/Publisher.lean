import Chip8.Channel
import Chip8.Display.Frame

/-! The hand-over of pictures to a renderer, which never waits: a picture that nobody is ready to
take is refused. -/
namespace Chip8

/-- The sending end towards a renderer; none if there is no renderer, or no longer one. -/
structure Publisher where
  channel : Option (Channel Frame)
  deriving DecidableEq

namespace Publisher

def toChannel (capacity : Option Nat) : Publisher := ⟨some (Channel.ofCapacity capacity)⟩

def detached : Publisher := ⟨none⟩

/-- Offers a picture and says whether it was accepted. A channel whose renderer has hung up is
dropped. -/
def publish (p : Publisher) (f : Frame) : Publisher × Bool :=
  match p.channel with
  | none => (p,false)
  | some c =>
    match c.send? f with
    | some c' => (⟨some c'⟩,true)
    | none => if c.listening then (p,false) else (detached,false)

def receive? (p : Publisher) : Option (Frame × Publisher) := do
  let (f,c) ← (← p.channel).receive?
  return (f,⟨some c⟩)

/-- The renderer begins to wait for a picture. -/
def await (p : Publisher) : Publisher := ⟨p.channel.map Channel.await⟩

/-- The renderer waits no longer. -/
def giveUp (p : Publisher) : Publisher := ⟨p.channel.map Channel.giveUp⟩

def hangUp (p : Publisher) : Publisher := ⟨p.channel.map Channel.hangUp⟩

end Publisher
end Chip8
