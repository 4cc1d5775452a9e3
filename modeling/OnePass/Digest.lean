import OnePass.Text.Bytes
set_option autoImplicit false

/-!
# Digests

SHA-256: a digest of 32 bytes for a text of any length.  The text is filled up to blocks of 64 bytes,
and each block is mixed into a state of eight words in 64 rounds.
-/

namespace OnePass.Digest

/-- The words that the rounds add: the first 32 bits behind the point of the cube roots of the first
64 primes. -/
def constants : List UInt32 :=
  [0x428a2f98, 0x71374491, 0xb5c0fbcf, 0xe9b5dba5, 0x3956c25b, 0x59f111f1, 0x923f82a4, 0xab1c5ed5,
    0xd807aa98, 0x12835b01, 0x243185be, 0x550c7dc3, 0x72be5d74, 0x80deb1fe, 0x9bdc06a7, 0xc19bf174,
    0xe49b69c1, 0xefbe4786, 0x0fc19dc6, 0x240ca1cc, 0x2de92c6f, 0x4a7484aa, 0x5cb0a9dc, 0x76f988da,
    0x983e5152, 0xa831c66d, 0xb00327c8, 0xbf597fc7, 0xc6e00bf3, 0xd5a79147, 0x06ca6351, 0x14292967,
    0x27b70a85, 0x2e1b2138, 0x4d2c6dfc, 0x53380d13, 0x650a7354, 0x766a0abb, 0x81c2c92e, 0x92722c85,
    0xa2bfe8a1, 0xa81a664b, 0xc24b8b70, 0xc76c51a3, 0xd192e819, 0xd6990624, 0xf40e3585, 0x106aa070,
    0x19a4c116, 0x1e376c08, 0x2748774c, 0x34b0bcb5, 0x391c0cb3, 0x4ed8aa4a, 0x5b9cca4f, 0x682e6ff3,
    0x748f82ee, 0x78a5636f, 0x84c87814, 0x8cc70208, 0x90befffa, 0xa4506ceb, 0xbef9a3f7, 0xc67178f2]

/-- The state that blocks are mixed into. -/
structure State where
  a : UInt32
  b : UInt32
  c : UInt32
  d : UInt32
  e : UInt32
  f : UInt32
  g : UInt32
  h : UInt32
  deriving DecidableEq, Repr, Inhabited

namespace State

/-- The state before the first block: the first 32 bits behind the point of the square roots of the
first eight primes. -/
def initial : State where
  a := 0x6a09e667
  b := 0xbb67ae85
  c := 0x3c6ef372
  d := 0xa54ff53a
  e := 0x510e527f
  f := 0x9b05688c
  g := 0x1f83d9ab
  h := 0x5be0cd19

/-- Two states word by word. -/
def add (s t : State) : State :=
  ⟨s.a + t.a, s.b + t.b, s.c + t.c, s.d + t.d, s.e + t.e, s.f + t.f, s.g + t.g, s.h + t.h⟩

end State

/-- A word turned to the right. -/
def turn (x count : UInt32) : UInt32 := (x >>> count) ||| (x <<< (32 - count))

/-- One round: mixes a word of a block and a constant into a state. -/
def round (s : State) (word constant : UInt32) : State :=
  let choice := (s.e &&& s.f) ^^^ (~~~s.e &&& s.g)
  let majority := (s.a &&& s.b) ^^^ (s.a &&& s.c) ^^^ (s.b &&& s.c)
  let first := s.h + (turn s.e 6 ^^^ turn s.e 11 ^^^ turn s.e 25) + choice + constant + word
  let second := (turn s.a 2 ^^^ turn s.a 13 ^^^ turn s.a 22) + majority
  ⟨first + second, s.a, s.b, s.c, s.d + first, s.e, s.f, s.g⟩

/-- The word that four bytes stand for, the most significant one first. -/
def wordOf (bytes : Bytes) : UInt32 := bytes.foldl (fun w b => (w <<< 8) ||| b.toUInt32) 0

/-- The four bytes of a word. -/
def bytesOf (w : UInt32) : Bytes :=
  [(w >>> 24).toUInt8, (w >>> 16).toUInt8, (w >>> 8).toUInt8, w.toUInt8]

/-- The next word of a schedule, given the words before it from the last one on. -/
def nextWord (words : List UInt32) : UInt32 :=
  let near := words.getD 1 0
  let far := words.getD 14 0
  (turn near 17 ^^^ turn near 19 ^^^ (near >>> 10)) + words.getD 6 0
    + (turn far 7 ^^^ turn far 18 ^^^ (far >>> 3)) + words.getD 15 0

/-- The words that are mixed in for a block: its own sixteen, and 48 that are made of them. -/
def schedule (block : Bytes) : List UInt32 :=
  let own := (List.range 16).map fun i => wordOf ((block.drop (4 * i)).take 4)
  ((List.range 48).foldl (fun words _ => nextWord words :: words) own.reverse).reverse

/-- Mixes a block into a state. -/
def mix (s : State) (block : Bytes) : State :=
  s.add (((schedule block).zip constants).foldl (fun t w => round t w.1 w.2) s)

/-- A text filled up to whole blocks: a set bit, clear bits, and the number of bits of the text. -/
def filled (s : Bytes) : Bytes :=
  let bits := (8 * s.length).toUInt64
  let clear : Bytes := List.replicate ((119 - s.length % 64) % 64) 0
  s ++ (0x80 :: clear ++ bytesOf (bits >>> 32).toUInt32 ++ bytesOf bits.toUInt32)

/-- The blocks of a text that is filled up. -/
def blocks (s : Bytes) : List Bytes :=
  (List.range (s.length / 64)).map fun i => (s.drop (64 * i)).take 64

/-- The digest of a text. -/
def sha256 (s : Bytes) : Bytes :=
  let t := (blocks (filled s)).foldl mix .initial
  [t.a, t.b, t.c, t.d, t.e, t.f, t.g, t.h].flatMap bytesOf

example : Bytes.join [] ((sha256 (text "abc")).map Bytes.hexPair) =
    text "ba7816bf8f01cfea414140de5dae2223b00361a396177a9cb410ff61f20015ad" := by
  decide +kernel

end OnePass.Digest
