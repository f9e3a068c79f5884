import TactiqAttest.Bytes.BigEndian
import TactiqAttest.Programs.Results
import TactiqAttest.Registrar.Utc

/-!
# Certificates, revocation lists and signatures

The registrar parses certificates with `x509-cert`, signatures with `cms`, and computes with `rsa`.
None of these is part of the repository.  Here is what the code reads of the structures they return,
and, as a parameter `Pki`, the functions it calls.  A field that the code encodes again is kept as
the result of that.
-/

namespace TactiqAttest.Registrar

/-- An object identifier, in dotted form. -/
abbrev Oid := String

/-- A distinguished name: its DER, and how it is displayed. -/
structure Name where
  der : Except String Bytes
  text : String
  deriving DecidableEq

/-- A time in a certificate or a revocation list.  DER has no part below a second there. -/
structure Time where
  unix : UInt64
  text : String
  deriving DecidableEq

/-- `to_unix_duration`. -/
def Time.toUnixDuration (t : Time) : Duration := .fromSecs t.unix

/-- An extension: which one, whether it is critical, and its value in DER. -/
structure Extension where
  extnId : Oid
  critical : Bool
  extnValue : Bytes
  deriving DecidableEq

/-- `Certificate`. -/
structure Certificate where
  /-- The certificate in DER. -/
  der : Except String Bytes
  /-- The part that is signed, in DER. -/
  tbsDer : Except String Bytes
  /-- The algorithm outside the signed part, and the one inside. -/
  signatureAlgorithm : Oid
  tbsSignature : Oid
  /-- `none` when the bit string has unused bits. -/
  signature : Option Bytes
  issuer : Name
  subject : Name
  serialNumber : Bytes
  notBefore : Time
  notAfter : Time
  /-- The public key in DER. -/
  subjectPublicKeyInfo : Except String Bytes
  extensions : List Extension

/-- `CertificateList`. -/
structure CertificateList where
  tbsDer : Except String Bytes
  signatureAlgorithm : Oid
  tbsSignature : Oid
  signature : Option Bytes
  issuer : Name
  thisUpdate : Time
  nextUpdate : Option Time
  crlExtensions : List Extension
  /-- The serial numbers. -/
  revokedCertificates : List Bytes

/-- `BasicConstraints`. -/
structure BasicConstraints where
  ca : Bool
  pathLenConstraint : Option UInt8
  deriving DecidableEq

/-- The bits of a `keyUsage`. -/
inductive KeyUsages where
  | digitalSignature
  | nonRepudiation
  | keyEncipherment
  | dataEncipherment
  | keyAgreement
  | keyCertSign
  | cRLSign
  | encipherOnly
  | decipherOnly
  deriving DecidableEq

/-- `KeyUsage`: the bits that are set. -/
abbrev KeyUsage := List KeyUsages

/-- `ExtendedKeyUsage`. -/
abbrev ExtendedKeyUsage := List Oid

/-! ## Signatures over files -/

/-- `SignerIdentifier`. -/
inductive SignerIdentifier where
  | issuerAndSerialNumber (issuer : Name) (serialNumber : Bytes)
  | subjectKeyIdentifier

/-- `SignerInfo`. -/
structure SignerInfo where
  sid : SignerIdentifier
  digestAlg : Oid
  /-- Whether there are signed attributes. -/
  signedAttrs : Bool
  signatureAlgorithm : Oid
  signature : Bytes

/-- `CertificateChoices`. -/
inductive CertificateChoices where
  | certificate (c : Certificate)
  | other

/-- `SignedData`. -/
structure SignedData where
  econtentType : Oid
  /-- Whether there is content. -/
  econtent : Bool
  signerInfos : List SignerInfo
  certificates : List CertificateChoices

/-- `ContentInfo`: the type of the content, and the content read as `SignedData`. -/
structure ContentInfo where
  contentType : Oid
  content : Except String SignedData

/-! ## What the code calls -/

/-- What the code calls of `x509-cert`, `cms` and `rsa`.  Errors are texts. -/
structure Pki where
  /-- `RsaPublicKey`. -/
  PublicKey : Type
  /-- `pkcs1v15::Signature`. -/
  Signature : Type
  /-- `Certificate::from_der`. -/
  certificateFromDer : Bytes → Except String Certificate
  /-- `Certificate::from_pem`. -/
  certificateFromPem : Bytes → Except String Certificate
  /-- `CertificateList::from_der`. -/
  crlFromDer : Bytes → Except String CertificateList
  /-- `ContentInfo::from_der`. -/
  contentInfoFromDer : Bytes → Except String ContentInfo
  /-- `BasicConstraints::from_der`. -/
  basicConstraintsFromDer : Bytes → Except String BasicConstraints
  /-- `KeyUsage::from_der`. -/
  keyUsageFromDer : Bytes → Except String KeyUsage
  /-- `ExtendedKeyUsage::from_der`. -/
  extKeyUsageFromDer : Bytes → Except String ExtendedKeyUsage
  /-- `RsaPublicKey::from_public_key_der`. -/
  publicKeyFromDer : Bytes → Except String PublicKey
  /-- `PublicKeyParts::size`: the bytes of the modulus. -/
  size : PublicKey → ℕ
  /-- `Signature::try_from`. -/
  signatureFromBytes : Bytes → Except String Signature
  /-- `VerifyingKey::<Sha256>::verify`. -/
  verify : PublicKey → Bytes → Signature → Bool

end TactiqAttest.Registrar
