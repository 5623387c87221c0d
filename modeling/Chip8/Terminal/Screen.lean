import Chip8.Display.Frame
import Chip8.Keypad.Basic

/-! Pictures as lines of text, and the part of a keyboard that stands for the keypad. -/
namespace Chip8

/-- The rows of a picture, each pixel as `scale` characters. -/
def Frame.lines (f : Frame) (scale : Nat) : List String :=
  (List.range 32).map fun row =>
    String.ofList ((List.range 64).flatMap fun col =>
      List.replicate scale (if f.pixel col row then '█' else ' '))

/-- The keypad's keys where they lie on the left of a keyboard, row by row. -/
def Keypad.layout : List (Char × UInt8) :=
  [('1',0x1),('2',0x2),('3',0x3),('4',0xC),
   ('q',0x4),('w',0x5),('e',0x6),('r',0xD),
   ('a',0x7),('s',0x8),('d',0x9),('f',0xE),
   ('z',0xA),('x',0x0),('c',0xB),('v',0xF)]

/-- The keypad with the keys down that some typed characters stand for. -/
def Keypad.ofTyped (typed : List Char) : Keypad :=
  (typed.filterMap fun c => layout.lookup c.toLower).foldl Keypad.press Keypad.released

end Chip8
