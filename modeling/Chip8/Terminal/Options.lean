import Chip8.Config

/-! The command line: the file of a program, and settings in any order around it. -/
namespace Chip8

structure Options where
  program : String
  config : Config
  /-- How many characters wide a pixel is shown. -/
  scale : Nat
  deriving DecidableEq

/-- Why a command line was refused. -/
inductive OptionFault where
  | noProgram
  | unexpected (argument : String)
  | noValue (option : String)
  | badNumber (option value : String)
  deriving DecidableEq, Repr

def OptionFault.message : OptionFault → String
  | .noProgram => "no program was given"
  | .unexpected argument => "unexpected argument " ++ argument
  | .noValue option => option ++ " needs a value"
  | .badNumber option value => value ++ " is not a number that fits " ++ option

namespace Options

/-- Command lines that are still being read, of which the program may be missing. -/
structure Draft where
  program : Option String
  config : Config
  scale : Nat
  deriving DecidableEq

/-- A decimal number below `bound`, without signs or blanks. -/
def number? (bound : Nat) (s : String) : Option Nat :=
  if s.toList.all Char.isDigit then s.toNat?.filter (· < bound) else none

private def numberOf (bound : Nat) (option value : String) : Except OptionFault Nat :=
  ((number? bound value).map Except.ok).getD (.error (.badNumber option value))

/-- Reads the arguments one after the other into a draft. -/
def Draft.read (d : Draft) : List String → Except OptionFault Draft
  | [] => .ok d
  | "--byte-step" :: rest => Draft.read { d with config := d.config.withPcStep .byte } rest
  | option :: rest =>
    if option ∈ ["--hz","--seed","--scale","-s"] then
      match rest with
      | [] => .error (.noValue option)
      | value :: rest => do
        if option = "--hz" then
          let hz ← numberOf UInt32.size option value
          Draft.read { d with config := d.config.withInstructionsPerSecond (UInt32.ofNat hz) } rest
        else if option = "--seed" then
          let seed ← numberOf UInt64.size option value
          Draft.read { d with config := d.config.withSeed (UInt64.ofNat seed) } rest
        else
          let scale ← numberOf UInt8.size option value
          Draft.read { d with scale := scale } rest
    else if option.startsWith "-" || d.program.isSome then .error (.unexpected option)
    else Draft.read { d with program := some option } rest

/-- Reads a whole command line; pixels are two characters wide unless it says otherwise. -/
def ofArguments (arguments : List String) : Except OptionFault Options := do
  let d ← Draft.read ⟨none,Config.standard,2⟩ arguments
  match d.program with
  | none => .error .noProgram
  | some program => .ok ⟨program,d.config,d.scale⟩

end Options
end Chip8
