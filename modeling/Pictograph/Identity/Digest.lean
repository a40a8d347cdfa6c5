/-!
# A digest of one word

The 64-bit xxHash digest of a single block of eight bytes, with seed zero. The general algorithm
takes texts of any length; on exactly eight bytes it is a chain of steps each of which can be
undone: multiplication by an odd constant, rotation, addition of a constant, and folding the high
bits of a word into its low bits. Distinct words therefore have distinct digests.
-/

namespace Pictograph.Digest

/-- The first of the five primes of the algorithm. -/
def prime₁ : UInt64 := 0x9E3779B185EBCA87
/-- The second prime. -/
def prime₂ : UInt64 := 0xC2B2AE3D27D4EB4F
/-- The third prime. -/
def prime₃ : UInt64 := 0x165667B19E3779F9
/-- The fourth prime. -/
def prime₄ : UInt64 := 0x85EBCA77C2B2AE63
/-- The fifth prime. -/
def prime₅ : UInt64 := 0x27D4EB2F165667C5

/-- Rotates the bits of a word to the left. -/
def rotate (x n : UInt64) : UInt64 :=
  (x <<< n) ||| (x >>> (64 - n))

/-- Folds the bits of a word above position `n` into those below. -/
def fold (n x : UInt64) : UInt64 :=
  x ^^^ (x >>> n)

/-- The contribution of one block. -/
def round (block : UInt64) : UInt64 :=
  rotate (block * prime₂) 31 * prime₁

/-- The state after the block, before the final scattering. It starts from the seed and the length
of the input. -/
def absorb (block : UInt64) : UInt64 :=
  rotate ((prime₅ + 8) ^^^ round block) 27 * prime₁ + prime₄

/-- The final scattering, after which every bit of the state bears on every bit of the digest. -/
def avalanche (x : UInt64) : UInt64 :=
  fold 32 (fold 29 (fold 33 x * prime₂) * prime₃)

/-- The digest of the eight bytes of `block`, least significant byte first. -/
def ofWord (block : UInt64) : UInt64 :=
  avalanche (absorb block)

end Pictograph.Digest
