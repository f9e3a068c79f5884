import TactiqAttest.Appraise.Gate1
import TactiqAttest.Envelope.EccPublic

/-!
# Which keys are attestation keys

`AkKey::from_tpm2b_public` accepts a key from its public area alone: it must be restricted, sign
only, never leave its TPM, and have been generated in it.  The curve arithmetic is that of `p256`,
so the point of a key from its coordinates is a parameter.

`fromTpm2bPublic_ok`: what an accepted public area has, and that the key carries its name.
-/

namespace TactiqAttest.Appraise

open Envelope

/-- The attributes an attestation key must carry. -/
def akRequired : UInt32 :=
  Attr.fixedTpm ||| Attr.fixedParent ||| Attr.sensitiveDataOrigin ||| Attr.restricted ||| Attr.sign

/-- A coordinate on 32 bytes. -/
def padCoordinate (v : Bytes) : Bytes := List.replicate (32 - v.length) 0 ++ v

variable {C : Crypto} (fromAffine : (x y : Bytes) → Except String C.VerifyingKey)

/-- `AkKey::from_tpm2b_public`. -/
def AkKey.fromTpm2bPublic (bytes : Bytes) : Except String (AkKey C) := do
  let p ← EccPublic.parseTpm2b bytes
  Except.ensure (p.attributes &&& akRequired = akRequired)
    (s!"not an AK: attributes 0x{Text.hex 8 p.attributes.toNat} lack " ++
      s!"0x{Text.hex 8 (akRequired &&& ~~~p.attributes).toNat} " ++
      "(fixedTPM, fixedParent, sensitiveDataOrigin, restricted, sign)")
  Except.ensure (p.attributes &&& Attr.decrypt = 0) "not an AK: key also decrypts"
  Except.ensure (p.symmetric = tpmAlgNull ∧ p.kdf = tpmAlgNull)
    "not an AK: symmetric or KDF scheme set on a signing key"
  Except.ensure (p.scheme = tpmAlgEcdsa ∧ p.schemeHash = tpmAlgSha256)
    (s!"not an AK: scheme 0x{Text.hex 4 p.scheme.toNat}/0x{Text.hex 4 p.schemeHash.toNat}, " ++
      "want ECDSA/SHA-256")
  Except.ensure (p.curve = tpmEccNistP256)
    s!"not an AK: curve 0x{Text.hex 4 p.curve.toNat}, want NIST P-256"
  Except.ensure (p.x.length ≤ 32 ∧ p.y.length ≤ 32)
    "not an AK: point coordinate longer than 32 bytes"
  let vk ← (fromAffine (padCoordinate p.x) (padCoordinate p.y)).mapError fun e =>
    s!"not an AK: point: {e}"
  let name ← p.name C
  return { vk, name }

/-- The rule on the fields of a public area. -/
structure IsAk (p : EccPublic) : Prop where
  required : p.attributes &&& akRequired = akRequired
  signOnly : p.attributes &&& Attr.decrypt = 0
  noSymmetric : p.symmetric = tpmAlgNull
  noKdf : p.kdf = tpmAlgNull
  scheme : p.scheme = tpmAlgEcdsa
  schemeHash : p.schemeHash = tpmAlgSha256
  curve : p.curve = tpmEccNistP256
  lengthX : p.x.length ≤ 32
  lengthY : p.y.length ≤ 32

variable {fromAffine} {bytes : Bytes} {key : AkKey C}

/-- A public area is accepted exactly if it obeys the rule, its coordinates are a point, and it has
a name. -/
theorem fromTpm2bPublic_ok : AkKey.fromTpm2bPublic fromAffine bytes = .ok key ↔
    ∃ p, EccPublic.parseTpm2b bytes = .ok p ∧ IsAk p ∧
      fromAffine (padCoordinate p.x) (padCoordinate p.y) = .ok key.vk ∧
      p.name C = .ok key.name := by
  unfold AkKey.fromTpm2bPublic
  simp only [Except.bind_eq_ok, Except.ensure_eq_ok, Except.mapError_eq_ok, Except.pure_eq_ok]
  constructor
  · rintro ⟨p, hp, _, hreq, _, hsign, _, ⟨hsym, hkdf⟩, _, ⟨hscheme, hhash⟩, _, hcurve, _,
      ⟨hx, hy⟩, vk, hvk, name, hname, rfl⟩
    exact ⟨p, hp, ⟨hreq, hsign, hsym, hkdf, hscheme, hhash, hcurve, hx, hy⟩, hvk, hname⟩
  · rintro ⟨p, hp, hak, hvk, hname⟩
    exact ⟨p, hp, (), hak.required, (), hak.signOnly, (), ⟨hak.noSymmetric, hak.noKdf⟩, (),
      ⟨hak.scheme, hak.schemeHash⟩, (), hak.curve, (), ⟨hak.lengthX, hak.lengthY⟩, key.vk, hvk,
      key.name, hname, rfl⟩

end TactiqAttest.Appraise
