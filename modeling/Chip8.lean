import Chip8.Engine.Session
import Chip8.Instruction.Mnemonic
import Chip8.Keypad.Shared
import Chip8.Main
import Chip8.Proofs.CallStack
import Chip8.Proofs.Countdown
import Chip8.Proofs.Duration
import Chip8.Proofs.Display.Painting
import Chip8.Proofs.Display.Pictures
import Chip8.Proofs.Display.Publishing
import Chip8.Proofs.Machine.Surroundings
import Chip8.Proofs.Engine.Batching
import Chip8.Proofs.Engine.Conservation
import Chip8.Proofs.Engine.Handover
import Chip8.Proofs.Engine.Offering
import Chip8.Proofs.Engine.Rate
import Chip8.Proofs.Engine.StepCount
import Chip8.Proofs.Engine.Stopping
import Chip8.Proofs.History
import Chip8.Proofs.Instruction.Assembly
import Chip8.Proofs.Instruction.Encoding
import Chip8.Proofs.Keypads
import Chip8.Proofs.Machine.Aliasing
import Chip8.Proofs.Machine.Arithmetic
import Chip8.Proofs.Machine.ControlFlow
import Chip8.Proofs.Machine.Effects
import Chip8.Proofs.Machine.Faults
import Chip8.Proofs.Machine.KeyWait
import Chip8.Proofs.Machine.Loading
import Chip8.Proofs.Machine.RandomNumbers
import Chip8.Proofs.Machine.Reloading
import Chip8.Proofs.Machine.Running
import Chip8.Proofs.Machine.SaveRestore
import Chip8.Proofs.Machine.Sprites
import Chip8.Proofs.Machine.Subroutine
import Chip8.Proofs.Memory.Spans
