import Mathlib.Init

/-!
# SHA-256

The hash function of FIPS 180-4 on byte strings, in 32-bit words kept as
natural numbers below `2 ^ 32`.  Everything is structurally recursive, so a
digest of a concrete string is a matter of evaluation.
-/

namespace MoltMesh.Lib.Sha256

/-- A word is taken modulo `2 ^ 32`. -/
def word (n : Nat) : Nat := n % 4294967296

/-- Right rotation of a word. -/
def rotr (k x : Nat) : Nat := (x >>> k) ||| word (x <<< (32 - k))

def bigSigma0 (x : Nat) : Nat := rotr 2 x ^^^ rotr 13 x ^^^ rotr 22 x

def bigSigma1 (x : Nat) : Nat := rotr 6 x ^^^ rotr 11 x ^^^ rotr 25 x

def smallSigma0 (x : Nat) : Nat := rotr 7 x ^^^ rotr 18 x ^^^ (x >>> 3)

def smallSigma1 (x : Nat) : Nat := rotr 17 x ^^^ rotr 19 x ^^^ (x >>> 10)

def choose (x y z : Nat) : Nat := (x &&& y) ^^^ ((4294967295 - x) &&& z)

def majority (x y z : Nat) : Nat := (x &&& y) ^^^ (x &&& z) ^^^ (y &&& z)

/-- The first thirty-two bits of the fractional parts of the cube roots of the
first sixty-four primes. -/
def roundConstants : List Nat :=
  [0x428a2f98, 0x71374491, 0xb5c0fbcf, 0xe9b5dba5, 0x3956c25b, 0x59f111f1, 0x923f82a4, 0xab1c5ed5,
   0xd807aa98, 0x12835b01, 0x243185be, 0x550c7dc3, 0x72be5d74, 0x80deb1fe, 0x9bdc06a7, 0xc19bf174,
   0xe49b69c1, 0xefbe4786, 0x0fc19dc6, 0x240ca1cc, 0x2de92c6f, 0x4a7484aa, 0x5cb0a9dc, 0x76f988da,
   0x983e5152, 0xa831c66d, 0xb00327c8, 0xbf597fc7, 0xc6e00bf3, 0xd5a79147, 0x06ca6351, 0x14292967,
   0x27b70a85, 0x2e1b2138, 0x4d2c6dfc, 0x53380d13, 0x650a7354, 0x766a0abb, 0x81c2c92e, 0x92722c85,
   0xa2bfe8a1, 0xa81a664b, 0xc24b8b70, 0xc76c51a3, 0xd192e819, 0xd6990624, 0xf40e3585, 0x106aa070,
   0x19a4c116, 0x1e376c08, 0x2748774c, 0x34b0bcb5, 0x391c0cb3, 0x4ed8aa4a, 0x5b9cca4f, 0x682e6ff3,
   0x748f82ee, 0x78a5636f, 0x84c87814, 0x8cc70208, 0x90befffa, 0xa4506ceb, 0xbef9a3f7, 0xc67178f2]

/-- The chaining state: eight words. -/
structure Digest where
  (a b c d e f g h : Nat)

/-- The first thirty-two bits of the fractional parts of the square roots of the
first eight primes. -/
def initial : Digest :=
  ⟨0x6a09e667, 0xbb67ae85, 0x3c6ef372, 0xa54ff53a, 0x510e527f, 0x9b05688c, 0x1f83d9ab, 0x5be0cd19⟩

/-- One of the sixty-four rounds, with round constant `k` and schedule word `w`. -/
def round (s : Digest) (k w : Nat) : Digest :=
  let t₁ := word (s.h + bigSigma1 s.e + choose s.e s.f s.g + k + w)
  let t₂ := word (bigSigma0 s.a + majority s.a s.b s.c)
  ⟨word (t₁ + t₂), s.a, s.b, s.c, word (s.d + t₁), s.e, s.f, s.g⟩

/-- The schedule word that follows a window of sixteen. -/
def nextWord (ws : List Nat) : Nat :=
  word (smallSigma1 (ws.getD 14 0) + ws.getD 9 0 + smallSigma0 (ws.getD 1 0) + ws.getD 0 0)

/-- The rounds of one block, over a sliding window of the message schedule. -/
def rounds : Digest → List Nat → List Nat → Digest
  | s, w :: ws, k :: ks => rounds (round s k w) (ws ++ [nextWord (w :: ws)]) ks
  | s, _, _ => s

/-- The compression function. -/
def compress (s : Digest) (block : List Nat) : Digest :=
  let t := rounds s block roundConstants
  ⟨word (s.a + t.a), word (s.b + t.b), word (s.c + t.c), word (s.d + t.d),
   word (s.e + t.e), word (s.f + t.f), word (s.g + t.g), word (s.h + t.h)⟩

/-- Big-endian words of a byte string. -/
def words : List Nat → List Nat
  | a :: b :: c :: d :: bs => (a * 16777216 + b * 65536 + c * 256 + d) :: words bs
  | _ => []

/-- The message, the bit `1`, zeros, and the bit length in eight bytes. -/
def pad (m : List Nat) : List Nat :=
  m ++ [0x80] ++ List.replicate ((119 - m.length % 64) % 64) 0 ++
    (List.range 8).map (fun i => ((8 * m.length) >>> (8 * (7 - i))) % 256)

/-- Compress `n` blocks of sixty-four bytes. -/
def blocks : Nat → Digest → List Nat → Digest
  | 0, s, _ => s
  | n + 1, s, m => blocks n (compress s (words (m.take 64))) (m.drop 64)

/-- Big-endian bytes of a word. -/
def wordBytes (w : Nat) : List UInt8 :=
  [UInt8.ofNat (w >>> 24), UInt8.ofNat (w >>> 16), UInt8.ofNat (w >>> 8), UInt8.ofNat w]

/-- The SHA-256 digest of a byte string. -/
def sum256 (m : List UInt8) : List UInt8 :=
  let p := pad (m.map UInt8.toNat)
  let s := blocks (p.length / 64) initial p
  wordBytes s.a ++ wordBytes s.b ++ wordBytes s.c ++ wordBytes s.d ++
    wordBytes s.e ++ wordBytes s.f ++ wordBytes s.g ++ wordBytes s.h

/-- A digest has thirty-two bytes. -/
@[simp] theorem length_sum256 (m : List UInt8) : (sum256 m).length = 32 := rfl

/-- The digest of `abc` begins as FIPS 180-4 says. -/
example : (sum256 [0x61, 0x62, 0x63]).take 4 = [0xba, 0x78, 0x16, 0xbf] := by decide +kernel

end MoltMesh.Lib.Sha256
