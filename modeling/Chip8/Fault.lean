import Chip8.Hex
import Chip8.Word

/-! The conditions that end a program. Carries, borrows and collisions are not among them; those are
reported through the flag register. -/
namespace Chip8

/-- Why a program was refused or stopped. -/
inductive Fault where
  | unknownOpcode (opcode : Word) (addr : Address)
  /-- A call with every slot of the call stack taken. -/
  | stackOverflow (addr target : Address)
  /-- A return with nothing on the call stack. -/
  | stackUnderflow (addr : Address)
  | programTooLarge (len max : Nat)
  | threadSpawn (thread cause : String)
  | engineCrashed
  deriving DecidableEq, Repr

/-- The message shown to the user; opcodes have at least four digits and addresses at least three. -/
def Fault.message : Fault → String
  | .unknownOpcode opcode addr =>
    "unknown opcode " ++ hex 4 opcode.toNat ++ " at " ++ hex 3 addr.toNat
  | .stackOverflow addr target =>
    "stack overflow calling " ++ hex 3 target.toNat ++ " from " ++ hex 3 addr.toNat
  | .stackUnderflow addr => "return with empty stack at " ++ hex 3 addr.toNat
  | .programTooLarge len max =>
    "program of " ++ len.repr ++ " bytes does not fit in " ++ max.repr ++ " bytes of memory"
  | .threadSpawn thread cause => "could not spawn " ++ thread ++ " thread: " ++ cause
  | .engineCrashed => "engine thread panicked"

example : (Fault.unknownOpcode 0x8128 0x200).message = "unknown opcode 8128 at 200" := by decide

end Chip8
