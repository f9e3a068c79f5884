import Mathlib.Data.Set.Function
import TactiqAttest.Hash.Sha256

/-!
# The cryptography the workspace links against

The crates hash with `sha2` and check signatures with `p256::ecdsa`.  Neither is part of the
repository, so both are parameters: a `Crypto` is what the code calls, and no more.  Statements that
need more than that --- that two digests are equal only if the inputs are, that a signature was made
by the key's owner --- say so in a hypothesis of their own.
-/

namespace TactiqAttest

/-- What the code calls of `sha2` and `p256`. -/
structure Crypto where
  /-- `Sha256::digest`. -/
  sha256 : Bytes → List.Vector UInt8 32
  /-- `p256::ecdsa::VerifyingKey`. -/
  VerifyingKey : Type
  /-- `p256::ecdsa::Signature`. -/
  Signature : Type
  /-- `Signature::from_der`, with the text of its error. -/
  fromDer : Bytes → Except String Signature
  /-- `Signature::from_slice`, with the text of its error. -/
  fromSlice : Bytes → Except String Signature
  /-- `VerifyingKey::verify`: ECDSA over SHA-256 of the bytes. -/
  verify : VerifyingKey → Bytes → Signature → Bool

namespace Crypto

variable (C : Crypto)

/-- `Signature::from_der(sig).or_else(|_| Signature::from_slice(sig))`: a TPM emits DER, `p256`
signs to a fixed `r || s`; either is accepted. -/
def decodeSignature (sig : Bytes) : Except String C.Signature :=
  match C.fromDer sig with
  | .ok s => .ok s
  | .error _ => C.fromSlice sig

/-- The signature decodes and verifies over `signed`. -/
def Verifies (vk : C.VerifyingKey) (signed sig : Bytes) : Prop :=
  ∃ s, C.decodeSignature sig = .ok s ∧ C.verify vk signed s = true

/-- No two different strings among `S` have the same digest.  Over *all* strings this is false of
any function, so a result names the strings it needs it for. -/
def CollisionFreeOn (S : Set Bytes) : Prop := Set.InjOn C.sha256 S

/-- The cryptography of an example: SHA-256, keys and signatures as their encodings, and as valid
signatures exactly those listed, each as key, signed bytes and signature. -/
def ofTable (valid : List (Bytes × Bytes × Bytes)) : Crypto where
  sha256 := Sha256.hash
  VerifyingKey := Bytes
  Signature := Bytes
  fromDer sig := if sig.head? = some 0x30 then .ok sig else .error "signature error"
  fromSlice sig := if sig.length = 64 then .ok sig else .error "signature error"
  verify vk signed sig := (vk, signed, sig) ∈ valid

end Crypto

end TactiqAttest
