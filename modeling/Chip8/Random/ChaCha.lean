/-! The ChaCha block function with twelve rounds, and a counter of 64 bits in place of a nonce. -/
namespace Chip8.ChaCha

abbrev Key := Vector UInt32 8

/-- The sixteen words that the rounds work on. -/
abbrev Block := Vector UInt32 16

/-- Rotates to the left by `n` bits, counted modulo 32 as shifts of a word are. -/
def rotateLeft (w n : UInt32) : UInt32 := w <<< n ||| w >>> (32 - n)

/-- Mixes four words of the block, named by their positions. -/
def quarterRound (s : Block) (a b c d : Fin 16) : Block :=
  let s := s.set a (s[a] + s[b])
  let s := s.set d (rotateLeft (s[d] ^^^ s[a]) 16)
  let s := s.set c (s[c] + s[d])
  let s := s.set b (rotateLeft (s[b] ^^^ s[c]) 12)
  let s := s.set a (s[a] + s[b])
  let s := s.set d (rotateLeft (s[d] ^^^ s[a]) 8)
  let s := s.set c (s[c] + s[d])
  s.set b (rotateLeft (s[b] ^^^ s[c]) 7)

/-- One round over the columns of the four by four block and one over its diagonals. -/
def doubleRound (s : Block) : Block :=
  let s := quarterRound s 0 4 8 12
  let s := quarterRound s 1 5 9 13
  let s := quarterRound s 2 6 10 14
  let s := quarterRound s 3 7 11 15
  let s := quarterRound s 0 5 10 15
  let s := quarterRound s 1 6 11 12
  let s := quarterRound s 2 7 8 13
  quarterRound s 3 4 9 14

/-- The block before the rounds: four constant words, the key, the counter from its low word on, and
two words of zero. -/
def start (key : Key) (counter : Nat) : Block :=
  (#v[0x61707865,0x3320646e,0x79622d32,0x6b206574] : Vector UInt32 4) ++ key ++
    (#v[UInt32.ofNat counter,UInt32.ofNat (counter / UInt32.size),0,0] : Vector UInt32 4)

def block (key : Key) (counter : Nat) : Block :=
  let s := start key counter
  (Nat.repeat doubleRound 6 s).zipWith (· + ·) s

/-- Word `j` of the key stream: the output blocks one after the other. -/
def word (key : Key) (j : Nat) : UInt32 := (block key (j / 16))[j % 16]

/-- The first two words of a published stream, taken together as one number from the low word on. -/
example :
    let key : Key := #v[1,23,456,7890,0,0,0,0]
    (word key 0).toNat + 2^32 * (word key 1).toNat = 10719222850664546238 := by decide +kernel

end Chip8.ChaCha
