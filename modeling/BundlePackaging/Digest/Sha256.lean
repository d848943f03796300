/-!
# SHA-256

The hash of FIPS 180-4: a message is padded to whole blocks of 64 bytes, and each block is mixed
into a chaining state of eight words by 64 rounds.  The blocks are taken byte by byte in one left
fold, so that the hash of a message is computed by recursion on its bytes.

## Main definitions

* `Sha256.schedule`, `Sha256.compress` — the words of a block and its effect on the state.
* `Sha256.hash` — the 32 bytes of the hash.
-/

namespace BundlePackaging
namespace Sha256

/-! ### Words -/

/-- The bits of `x` moved down by `n`, those that fall out entering at the top. -/
def rotateRight (x n : UInt32) : UInt32 := (x >>> n) ||| (x <<< (32 - n))

/-- The mixing of a schedule word 15 steps back. -/
def smallSigma0 (x : UInt32) : UInt32 := rotateRight x 7 ^^^ rotateRight x 18 ^^^ (x >>> 3)

/-- The mixing of a schedule word 2 steps back. -/
def smallSigma1 (x : UInt32) : UInt32 := rotateRight x 17 ^^^ rotateRight x 19 ^^^ (x >>> 10)

/-- The mixing of the state's first word. -/
def bigSigma0 (x : UInt32) : UInt32 := rotateRight x 2 ^^^ rotateRight x 13 ^^^ rotateRight x 22

/-- The mixing of the state's fifth word. -/
def bigSigma1 (x : UInt32) : UInt32 := rotateRight x 6 ^^^ rotateRight x 11 ^^^ rotateRight x 25

/-- The word of four bytes, highest first. -/
def word (a b c d : UInt8) : UInt32 :=
  UInt32.ofNat (((a.toNat * 256 + b.toNat) * 256 + c.toNat) * 256 + d.toNat)

/-- The four bytes of a word, highest first. -/
def wordBytes (w : UInt32) : List UInt8 :=
  [UInt8.ofNat (w.toNat / 16777216), UInt8.ofNat (w.toNat / 65536), UInt8.ofNat (w.toNat / 256),
    UInt8.ofNat w.toNat]

/-- The words that a list of bytes spells, four bytes each. -/
def words : List UInt8 → List UInt32
  | a :: b :: c :: d :: rest => word a b c d :: words rest
  | _ => []

/-- The round constants: the fractional parts of the cube roots of the first 64 primes. -/
def roundConstants : List UInt32 :=
  [0x428a2f98, 0x71374491, 0xb5c0fbcf, 0xe9b5dba5, 0x3956c25b, 0x59f111f1, 0x923f82a4, 0xab1c5ed5,
   0xd807aa98, 0x12835b01, 0x243185be, 0x550c7dc3, 0x72be5d74, 0x80deb1fe, 0x9bdc06a7, 0xc19bf174,
   0xe49b69c1, 0xefbe4786, 0x0fc19dc6, 0x240ca1cc, 0x2de92c6f, 0x4a7484aa, 0x5cb0a9dc, 0x76f988da,
   0x983e5152, 0xa831c66d, 0xb00327c8, 0xbf597fc7, 0xc6e00bf3, 0xd5a79147, 0x06ca6351, 0x14292967,
   0x27b70a85, 0x2e1b2138, 0x4d2c6dfc, 0x53380d13, 0x650a7354, 0x766a0abb, 0x81c2c92e, 0x92722c85,
   0xa2bfe8a1, 0xa81a664b, 0xc24b8b70, 0xc76c51a3, 0xd192e819, 0xd6990624, 0xf40e3585, 0x106aa070,
   0x19a4c116, 0x1e376c08, 0x2748774c, 0x34b0bcb5, 0x391c0cb3, 0x4ed8aa4a, 0x5b9cca4f, 0x682e6ff3,
   0x748f82ee, 0x78a5636f, 0x84c87814, 0x8cc70208, 0x90befffa, 0xa4506ceb, 0xbef9a3f7, 0xc67178f2]

/-! ### Blocks -/

/-- The chaining state. -/
structure Chain where
  (a b c d e f g h : UInt32)
  deriving DecidableEq, Inhabited

/-- The state before the first block: the fractional parts of the square roots of the first eight
primes. -/
def Chain.start : Chain :=
  ⟨0x6a09e667, 0xbb67ae85, 0x3c6ef372, 0xa54ff53a, 0x510e527f, 0x9b05688c, 0x1f83d9ab, 0x5be0cd19⟩

/-- The bytes of the state's words. -/
def Chain.bytes (s : Chain) : List UInt8 :=
  wordBytes s.a ++ wordBytes s.b ++ wordBytes s.c ++ wordBytes s.d ++ wordBytes s.e ++
    wordBytes s.f ++ wordBytes s.g ++ wordBytes s.h

/-- Wordwise sum of two states. -/
def Chain.add (s t : Chain) : Chain :=
  ⟨s.a + t.a, s.b + t.b, s.c + t.c, s.d + t.d, s.e + t.e, s.f + t.f, s.g + t.g, s.h + t.h⟩

/-- Add `n` words to a schedule that is held last word first. -/
def extend : Nat → List UInt32 → List UInt32
  | 0, ws => ws
  | n + 1, ws =>
    -- from the words 2, 7, 15 and 16 steps back
    let w := smallSigma1 (ws.getD 1 0) + ws.getD 6 0 + smallSigma0 (ws.getD 14 0) + ws.getD 15 0
    extend n (w :: ws)

/-- The 64 words that a block of 64 bytes feeds to the rounds. -/
def schedule (block : List UInt8) : List UInt32 := (extend 48 (words block).reverse).reverse

/-- One round, with the sum of its constant and its schedule word. -/
def round (s : Chain) (kw : UInt32) : Chain :=
  let choice := (s.e &&& s.f) ^^^ ((~~~ s.e) &&& s.g)
  let majority := (s.a &&& s.b) ^^^ (s.a &&& s.c) ^^^ (s.b &&& s.c)
  let t := s.h + bigSigma1 s.e + choice + kw
  ⟨t + bigSigma0 s.a + majority, s.a, s.b, s.c, s.d + t, s.e, s.f, s.g⟩

/-- Mix one block into the state. -/
def compress (s : Chain) (block : List UInt8) : Chain :=
  s.add ((List.zipWith (· + ·) roundConstants (schedule block)).foldl round s)

/-! ### Messages -/

/-- The length of a message in bits, as eight bytes. -/
def lengthBytes (size : Nat) : List UInt8 :=
  (List.range 8).map fun i => UInt8.ofNat ((8 * size) >>> (8 * (7 - i)))

/-- The end of the padded message: a one bit, zeros up to the last eight bytes of a block, and the
length. -/
def padding (size : Nat) : List UInt8 :=
  (0x80 :: List.replicate ((119 - size % 64) % 64) 0) ++ lengthBytes size

/-- A message read so far: the state after its whole blocks, and the bytes since, last first. -/
structure Reading where
  /-- The state after the whole blocks. -/
  chain : Chain
  /-- The bytes of the block that is not complete, last first. -/
  pending : List UInt8
  /-- How many bytes are pending. -/
  count : Nat

/-- Read one byte; the 64th of a block completes it. -/
def Reading.push (r : Reading) (b : UInt8) : Reading :=
  if r.count = 63 then ⟨compress r.chain (b :: r.pending).reverse, [], 0⟩
  else ⟨r.chain, b :: r.pending, r.count + 1⟩

/-- The SHA-256 hash of a message. -/
def hash (message : List UInt8) : List UInt8 :=
  ((message ++ padding message.length).foldl Reading.push ⟨.start, [], 0⟩).chain.bytes

@[simp] theorem length_hash (message : List UInt8) : (hash message).length = 32 := rfl

end Sha256
end BundlePackaging
