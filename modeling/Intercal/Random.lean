namespace Intercal.Random

abbrev Block := Vector UInt32 16

def rotateLeft (x n : UInt32) : UInt32 := (x <<< n) ||| (x >>> (32 - n))

def rotateRight (x n : UInt32) : UInt32 := rotateLeft x (32 - n)

def turn (v : Block) (a b d : Fin 16) (n : UInt32) : Block :=
  let v := v.set a (v[a] + v[b])
  v.set d (rotateLeft (v[d] ^^^ v[a]) n)

def quarterRound (v : Block) (a b c d : Fin 16) : Block :=
  let v := turn v a b d 16
  let v := turn v c d b 12
  let v := turn v a b d 8
  turn v c d b 7

def doubleRound (v : Block) : Block :=
  let v := quarterRound v 0 4 8 12
  let v := quarterRound v 1 5 9 13
  let v := quarterRound v 2 6 10 14
  let v := quarterRound v 3 7 11 15
  let v := quarterRound v 0 5 10 15
  let v := quarterRound v 1 6 11 12
  let v := quarterRound v 2 7 8 13
  quarterRound v 3 4 9 14

def stretch (state : UInt64) : UInt64 := state * 6364136223846793005 + 11634580027462260723

def keyWord (state : UInt64) : UInt32 :=
  rotateRight (((state >>> 18) ^^^ state) >>> 27).toUInt32 (state >>> 59).toUInt32

def keyFrom (state : UInt64) : Nat → List UInt32
  | 0 => []
  | n + 1 => keyWord (stretch state) :: keyFrom (stretch state) n

def constants : List UInt32 := [0x61707865, 0x3320646e, 0x79622d32, 0x6b206574]

def startBlock (seed : UInt64) (number : UInt64) : Block :=
  let words := constants ++ keyFrom seed 8 ++ [number.toUInt32, (number >>> 32).toUInt32, 0, 0]
  Vector.ofFn fun i => words.getD i 0

def block (seed : UInt64) (number : UInt64) : Block :=
  let start := startBlock seed number
  let mixed := (List.range 6).foldl (fun v _ => doubleRound v) start
  Vector.ofFn fun i => mixed[i] + start[i]

/-- A place in the stream of a seed, which is that of ChaCha with twelve rounds. -/
structure Source where
  seed : UInt64
  position : Nat := 0
  deriving DecidableEq

namespace Source

def word (s : Source) : UInt32 :=
  (block s.seed (UInt64.ofNat (s.position / 16))).toList.getD (s.position % 16) 0

def advance (s : Source) : Source := { s with position := s.position + 1 }

def period : Nat := 16 * 0x10000000000000000

/-- Draws words, at most as many as the first argument says, until one scaled to `bound` leaves a low half of at
most `zone`; the high half is the number drawn. -/
def draw (bound zone : Nat) : Nat → Source → Nat × Source
  | 0, s => (0, s)
  | n + 1, s =>
    let scaled := s.word.toNat * bound
    if scaled % 0x100000000 ≤ zone then (scaled / 0x100000000, s.advance) else draw bound zone n s.advance

def percent (s : Source) : Nat × Source := draw 100 (0xffffffff - 0xffffff9c % 100) period s

def below (bound : Nat) (s : Source) : Nat × Source :=
  draw bound (bound <<< (31 - bound.log2) - 1) period s

end Source

end Intercal.Random
