import Mathlib.Data.Vector.Basic
import TactiqAttest.Bytes.BigEndian

/-!
# SHA-256

The hash function of FIPS 180-4, on byte strings.  Nothing below is proved about its cryptographic
strength, and nothing can be: results that need two digests to differ take that as a hypothesis.
What the definition is for is evaluation --- an example run of a protocol has real digests in it.

Words are natural numbers below `2 ^ 32`, and each intermediate word is *computed* before it is
used again (`force`): reduction otherwise shares nothing between the uses of a word, and the sixty
four rounds would take exponentially long.
-/

open BigEndian

namespace Sha256

/-- `2 ^ 32`. -/
def modulus : ℕ := 0x100000000

/-- Evaluate a number before passing it on.  The match makes reduction compute `n`. -/
def force {α : Type} (n : ℕ) (f : ℕ → α) : α :=
  match n with
  | 0 => f 0
  | k + 1 => f (k + 1)

/-! ## The functions of a round -/

def rotr (n x : ℕ) : ℕ := (x >>> n) ||| ((x <<< (32 - n)) % modulus)

def bigSigma0 (x : ℕ) : ℕ := rotr 2 x ^^^ rotr 13 x ^^^ rotr 22 x

def bigSigma1 (x : ℕ) : ℕ := rotr 6 x ^^^ rotr 11 x ^^^ rotr 25 x

def smallSigma0 (x : ℕ) : ℕ := rotr 7 x ^^^ rotr 18 x ^^^ (x >>> 3)

def smallSigma1 (x : ℕ) : ℕ := rotr 17 x ^^^ rotr 19 x ^^^ (x >>> 10)

def choose (x y z : ℕ) : ℕ := (x &&& y) ^^^ ((0xffffffff ^^^ x) &&& z)

def majority (x y z : ℕ) : ℕ := (x &&& y) ^^^ (x &&& z) ^^^ (y &&& z)

/-- The sixty-four round constants. -/
def roundConstants : List ℕ :=
  [0x428a2f98, 0x71374491, 0xb5c0fbcf, 0xe9b5dba5, 0x3956c25b, 0x59f111f1, 0x923f82a4, 0xab1c5ed5,
   0xd807aa98, 0x12835b01, 0x243185be, 0x550c7dc3, 0x72be5d74, 0x80deb1fe, 0x9bdc06a7, 0xc19bf174,
   0xe49b69c1, 0xefbe4786, 0x0fc19dc6, 0x240ca1cc, 0x2de92c6f, 0x4a7484aa, 0x5cb0a9dc, 0x76f988da,
   0x983e5152, 0xa831c66d, 0xb00327c8, 0xbf597fc7, 0xc6e00bf3, 0xd5a79147, 0x06ca6351, 0x14292967,
   0x27b70a85, 0x2e1b2138, 0x4d2c6dfc, 0x53380d13, 0x650a7354, 0x766a0abb, 0x81c2c92e, 0x92722c85,
   0xa2bfe8a1, 0xa81a664b, 0xc24b8b70, 0xc76c51a3, 0xd192e819, 0xd6990624, 0xf40e3585, 0x106aa070,
   0x19a4c116, 0x1e376c08, 0x2748774c, 0x34b0bcb5, 0x391c0cb3, 0x4ed8aa4a, 0x5b9cca4f, 0x682e6ff3,
   0x748f82ee, 0x78a5636f, 0x84c87814, 0x8cc70208, 0x90befffa, 0xa4506ceb, 0xbef9a3f7, 0xc67178f2]

/-- The eight working words. -/
structure State where
  (a b c d e f g h : ℕ)

/-- The initial hash value. -/
def init : State :=
  ⟨0x6a09e667, 0xbb67ae85, 0x3c6ef372, 0xa54ff53a, 0x510e527f, 0x9b05688c, 0x1f83d9ab, 0x5be0cd19⟩

def State.add (s t : State) : State :=
  ⟨(s.a + t.a) % modulus, (s.b + t.b) % modulus, (s.c + t.c) % modulus, (s.d + t.d) % modulus,
   (s.e + t.e) % modulus, (s.f + t.f) % modulus, (s.g + t.g) % modulus, (s.h + t.h) % modulus⟩

/-! ## Compression -/

/-- One round with constant `k` and schedule word `w`. -/
def round (s : State) (k w : ℕ) : State :=
  force (s.h + bigSigma1 s.e + choose s.e s.f s.g + k + w) fun t =>
  force ((t + bigSigma0 s.a + majority s.a s.b s.c) % modulus) fun a =>
  force ((s.d + t) % modulus) fun e =>
  ⟨a, s.a, s.b, s.c, e, s.e, s.f, s.g⟩

/-- The rounds, with the message schedule kept as its next sixteen words. -/
def rounds : List ℕ → List ℕ → State → State
  | [], _, s => s
  | _ :: _, [], s => s
  | k :: ks, w :: ws, s =>
    force ((w + smallSigma0 (ws.getD 0 0) + ws.getD 8 0 + smallSigma1 (ws.getD 13 0)) % modulus)
      fun w' => rounds ks (ws ++ [w']) (round s k w)

/-- The first `n` four-byte words. -/
def words : ℕ → Bytes → List ℕ
  | 0, _ => []
  | n + 1, bs => decode (bs.take 4) :: words n (bs.drop 4)

def compress (s : State) (block : Bytes) : State :=
  s.add (rounds roundConstants (words 16 block) s)

def compressAll : ℕ → Bytes → State → State
  | 0, _, s => s
  | n + 1, bs, s => compressAll n (bs.drop 64) (compress s (bs.take 64))

/-! ## The hash -/

/-- A one bit, zeros up to eight bytes short of a block, and the length in bits. -/
def pad (bs : Bytes) : Bytes :=
  bs ++ 0x80 :: (List.replicate ((119 - bs.length % 64) % 64) 0 ++ encode 8 (8 * bs.length))

def State.bytes (s : State) : Bytes :=
  [s.a, s.b, s.c, s.d, s.e, s.f, s.g, s.h].flatMap (encode 4)

/-- SHA-256. -/
def hash (bs : Bytes) : List.Vector UInt8 32 :=
  ⟨(compressAll ((pad bs).length / 64) (pad bs) init).bytes, by simp [State.bytes]⟩

/-- The digest of `abc`. -/
example : decode (hash [0x61, 0x62, 0x63]).toList =
    0xba7816bf8f01cfea414140de5dae2223b00361a396177a9cb410ff61f20015ad := by
  decide +kernel

end Sha256
