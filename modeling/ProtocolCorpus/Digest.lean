import ProtocolCorpus.Text.Basic

/-!
# Digests

The 256-bit digest of the Secure Hash Standard, on texts. A digest is itself a
text of 32 bytes, so that digests can be joined and digested again.
-/

namespace ProtocolCorpus

namespace Digest

/-- The digest of nothing known yet: 32 zero bytes. -/
def zero : Text :=
  Text.fill 32 0

/-- The first words of the fractional parts of the square roots of the first
eight primes. -/
def initial : List UInt32 :=
  [0x6a09e667, 0xbb67ae85, 0x3c6ef372, 0xa54ff53a, 0x510e527f, 0x9b05688c,
    0x1f83d9ab, 0x5be0cd19]

/-- The first words of the fractional parts of the cube roots of the first
sixty-four primes. -/
def roundConstants : List UInt32 :=
  [0x428a2f98, 0x71374491, 0xb5c0fbcf, 0xe9b5dba5, 0x3956c25b, 0x59f111f1,
    0x923f82a4, 0xab1c5ed5, 0xd807aa98, 0x12835b01, 0x243185be, 0x550c7dc3,
    0x72be5d74, 0x80deb1fe, 0x9bdc06a7, 0xc19bf174, 0xe49b69c1, 0xefbe4786,
    0x0fc19dc6, 0x240ca1cc, 0x2de92c6f, 0x4a7484aa, 0x5cb0a9dc, 0x76f988da,
    0x983e5152, 0xa831c66d, 0xb00327c8, 0xbf597fc7, 0xc6e00bf3, 0xd5a79147,
    0x06ca6351, 0x14292967, 0x27b70a85, 0x2e1b2138, 0x4d2c6dfc, 0x53380d13,
    0x650a7354, 0x766a0abb, 0x81c2c92e, 0x92722c85, 0xa2bfe8a1, 0xa81a664b,
    0xc24b8b70, 0xc76c51a3, 0xd192e819, 0xd6990624, 0xf40e3585, 0x106aa070,
    0x19a4c116, 0x1e376c08, 0x2748774c, 0x34b0bcb5, 0x391c0cb3, 0x4ed8aa4a,
    0x5b9cca4f, 0x682e6ff3, 0x748f82ee, 0x78a5636f, 0x84c87814, 0x8cc70208,
    0x90befffa, 0xa4506ceb, 0xbef9a3f7, 0xc67178f2]

def rotate (x n : UInt32) : UInt32 :=
  (x >>> n) ||| (x <<< (32 - n))

/-- `n` bytes of a number, the highest first. -/
def bigEndian : (n : Nat) → Nat → Text
  | 0, _ => []
  | n + 1, x => bigEndian n (x / 256) ++ [UInt8.ofNat x]

/-- The words of a block of bytes, the highest byte of a word first. -/
def words : Text → List UInt32
  | a :: b :: c :: d :: t =>
    ((a.toUInt32 <<< 24) ||| (b.toUInt32 <<< 16) ||| (c.toUInt32 <<< 8) |||
      d.toUInt32) :: words t
  | _ => []

/-- The message with a one bit, zeros, and its length in bits, filling whole
blocks. -/
def padded (t : Text) : Text :=
  t ++ [0x80] ++ Text.fill ((119 - t.length % 64) % 64) 0 ++ bigEndian 8
    (t.length * 8)

/-- The next word of the schedule from the last sixteen, the latest first. -/
def nextWord (latest : List UInt32) : UInt32 :=
  let w := fun i => latest.getD i 0
  let s0 := rotate (w 14) 7 ^^^ rotate (w 14) 18 ^^^ (w 14 >>> 3)
  let s1 := rotate (w 1) 17 ^^^ rotate (w 1) 19 ^^^ (w 1 >>> 10)
  w 15 + s0 + w 6 + s1

/-- The schedule of a block, the latest word first, after `n` more words. -/
def schedule : (n : Nat) → List UInt32 → List UInt32
  | 0, ws => ws
  | n + 1, ws => schedule n (nextWord ws :: ws)

def round (state : List UInt32) (kw : UInt32 × UInt32) : List UInt32 :=
  match state with
  | [a, b, c, d, e, f, g, h] =>
    let s1 := rotate e 6 ^^^ rotate e 11 ^^^ rotate e 25
    let choice := (e &&& f) ^^^ ((~~~ e) &&& g)
    let t1 := h + s1 + choice + kw.1 + kw.2
    let s0 := rotate a 2 ^^^ rotate a 13 ^^^ rotate a 22
    let majority := (a &&& b) ^^^ (a &&& c) ^^^ (b &&& c)
    [t1 + (s0 + majority), a, b, c, d + t1, e, f, g]
  | other => other

def absorb (state : List UInt32) (block : Text) : List UInt32 :=
  let ws := (schedule 48 (words block).reverse).reverse
  let mixed := (roundConstants.zip ws).foldl round state
  (state.zip mixed).map fun p => p.1 + p.2

/-- The state after all the blocks of a padded message; `n` bounds their number.
-/
def absorbAll : (n : Nat) → List UInt32 → Text → List UInt32
  | 0, state, _ => state
  | n + 1, state, t => absorbAll n (absorb state (t.take 64)) (t.drop 64)

def sha256 (t : Text) : Text :=
  let message := padded t
  (absorbAll (message.length / 64) initial message).flatMap fun w =>
    bigEndian 4 w.toNat

def combine (content : Text) (dependencies : List Text) : Text :=
  sha256 (content ++ dependencies.flatten)

end Digest

end ProtocolCorpus
