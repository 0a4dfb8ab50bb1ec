import MathScript.Bytes.Basic

/-!
# SHA-256 and its message authentication code

The hash function of FIPS 180-4 with 256 bits, and HMAC over it.
-/

namespace MathScript.Sha256

/-- The chaining state: eight words. -/
structure State where
  a : UInt32
  b : UInt32
  c : UInt32
  d : UInt32
  e : UInt32
  f : UInt32
  g : UInt32
  h : UInt32
deriving DecidableEq, Repr

/-- The state before the first block: the first 32 bits of the fractions of the
square roots of the first eight primes. -/
def initial : State :=
  ⟨0x6a09e667, 0xbb67ae85, 0x3c6ef372, 0xa54ff53a,
   0x510e527f, 0x9b05688c, 0x1f83d9ab, 0x5be0cd19⟩

/-- The round constants: the first 32 bits of the fractions of the cube roots of
the first 64 primes. -/
def roundConstants : List UInt32 := [
  0x428a2f98, 0x71374491, 0xb5c0fbcf, 0xe9b5dba5, 0x3956c25b, 0x59f111f1,
  0x923f82a4, 0xab1c5ed5, 0xd807aa98, 0x12835b01, 0x243185be, 0x550c7dc3,
  0x72be5d74, 0x80deb1fe, 0x9bdc06a7, 0xc19bf174, 0xe49b69c1, 0xefbe4786,
  0x0fc19dc6, 0x240ca1cc, 0x2de92c6f, 0x4a7484aa, 0x5cb0a9dc, 0x76f988da,
  0x983e5152, 0xa831c66d, 0xb00327c8, 0xbf597fc7, 0xc6e00bf3, 0xd5a79147,
  0x06ca6351, 0x14292967, 0x27b70a85, 0x2e1b2138, 0x4d2c6dfc, 0x53380d13,
  0x650a7354, 0x766a0abb, 0x81c2c92e, 0x92722c85, 0xa2bfe8a1, 0xa81a664b,
  0xc24b8b70, 0xc76c51a3, 0xd192e819, 0xd6990624, 0xf40e3585, 0x106aa070,
  0x19a4c116, 0x1e376c08, 0x2748774c, 0x34b0bcb5, 0x391c0cb3, 0x4ed8aa4a,
  0x5b9cca4f, 0x682e6ff3, 0x748f82ee, 0x78a5636f, 0x84c87814, 0x8cc70208,
  0x90befffa, 0xa4506ceb, 0xbef9a3f7, 0xc67178f2]

def rotateRight (x n : UInt32) : UInt32 :=
  (x >>> n) ||| (x <<< (32 - n))

def bigSigma0 (x : UInt32) : UInt32 := rotateRight x 2 ^^^ rotateRight x 13 ^^^ rotateRight x 22
def bigSigma1 (x : UInt32) : UInt32 := rotateRight x 6 ^^^ rotateRight x 11 ^^^ rotateRight x 25
def smallSigma0 (x : UInt32) : UInt32 := rotateRight x 7 ^^^ rotateRight x 18 ^^^ (x >>> 3)
def smallSigma1 (x : UInt32) : UInt32 := rotateRight x 17 ^^^ rotateRight x 19 ^^^ (x >>> 10)
def choose (x y z : UInt32) : UInt32 := (x &&& y) ^^^ (~~~x &&& z)
def majority (x y z : UInt32) : UInt32 := (x &&& y) ^^^ (x &&& z) ^^^ (y &&& z)

/-- The words of a block, the highest byte of each first. -/
def words : Bytes → List UInt32
  | a :: b :: c :: d :: rest =>
    ((a.toUInt32 <<< 24) ||| (b.toUInt32 <<< 16) ||| (c.toUInt32 <<< 8) ||| d.toUInt32) ::
      words rest
  | _ => []

/-- Extends a schedule, which is given and kept with its newest word first. -/
def extend : (n : Nat) → List UInt32 → List UInt32
  | 0, newest => newest
  | n + 1, newest =>
    let back (k : Nat) : UInt32 := newest.getD (k - 1) 0
    extend n ((smallSigma1 (back 2) + back 7 + smallSigma0 (back 15) + back 16) :: newest)

/-- The 64 words that the rounds over a block take in. -/
def schedule (block : Bytes) : List UInt32 :=
  (extend 48 (words block).reverse).reverse

/-- One round, with its word and its constant. -/
def round (s : State) (input : UInt32 × UInt32) : State :=
  let t1 := s.h + bigSigma1 s.e + choose s.e s.f s.g + input.2 + input.1
  let t2 := bigSigma0 s.a + majority s.a s.b s.c
  ⟨t1 + t2, s.a, s.b, s.c, s.d + t1, s.e, s.f, s.g⟩

/-- Takes in a block. -/
def compress (s : State) (block : Bytes) : State :=
  let r := ((schedule block).zip roundConstants).foldl round s
  ⟨s.a + r.a, s.b + r.b, s.c + r.c, s.d + r.d, s.e + r.e, s.f + r.f, s.g + r.g, s.h + r.h⟩

/-- The bytes of a block. -/
def blockSize : Nat := 64

/-- A message followed by a one bit, zeros, and its length in bits, so that it
fills whole blocks. -/
def pad (message : Bytes) : Bytes :=
  let zeros := (blockSize - (message.length + 9) % blockSize) % blockSize
  message ++ 0x80 :: List.replicate zeros 0 ++ (Bytes.ofNat 8 (8 * message.length)).reverse

/-- Takes in `n` blocks. -/
def absorb : (n : Nat) → State → Bytes → State
  | 0, s, _ => s
  | n + 1, s, bs => absorb n (compress s (bs.take blockSize)) (bs.drop blockSize)

/-- The bytes of a word, the highest first. -/
def wordBytes (w : UInt32) : Bytes :=
  (Bytes.ofNat 4 w.toNat).reverse

/-- The digest of a message: 32 bytes. -/
def hash (message : Bytes) : Bytes :=
  let padded := pad message
  let s := absorb (padded.length / blockSize) initial padded
  [s.a, s.b, s.c, s.d, s.e, s.f, s.g, s.h].flatMap wordBytes

/-- The length of a digest. -/
def digestSize : Nat := 32

@[simp] theorem length_hash (message : Bytes) : (hash message).length = digestSize := by
  simp [hash, wordBytes, digestSize]

/-- A key brought to the length of a block: hashed if it is longer, and filled up
with zeros. -/
def blockKey (key : Bytes) : Bytes :=
  let short := if key.length > blockSize then hash key else key
  short ++ List.replicate (blockSize - short.length) 0

/-- HMAC-SHA256 of a message under a key. -/
def authenticate (key message : Bytes) : Bytes :=
  let k := blockKey key
  hash (k.map (· ^^^ 0x5C) ++ hash (k.map (· ^^^ 0x36) ++ message))

@[simp] theorem length_authenticate (key message : Bytes) :
    (authenticate key message).length = digestSize := by
  simp [authenticate]

end MathScript.Sha256
