import TactiqAttest.Bytes.Hex
import TactiqAttest.Registrar.Chain

/-!
# The signature of a registration record

A record is signed as a file, detached, by a `Registration Signer` under the release root.
`signature::verify` looks at the container, then at the path from the signer's certificate over the
Signing CA to the root, then at the signer's certificate, and last at the signature itself.
-/

namespace TactiqAttest.Registrar.Signature

open Chain

variable (P : Pki) (C : Crypto)

/-- `REG_EKU_OID`: the registration purpose. -/
def regEkuOid : Oid := "2.25.205994972697553183157730487844756597568"
def idSignedData : Oid := "1.2.840.113549.1.7.2"
def idData : Oid := "1.2.840.113549.1.7.1"
def sha256 : Oid := "2.16.840.1.101.3.4.2.1"
def rsaEncryption : Oid := "1.2.840.113549.1.1.1"

/-- `Signer`. -/
structure Signer where
  leafSubject : String
  leafSerial : String
  signingCaSubject : String
  rootSha256 : String

/-- `cert_der`: PEM or DER, as DER. -/
def certDer (bytes : Bytes) (what : String) : Except String Bytes :=
  if (Text.ascii "-----BEGIN").isPrefixOf bytes then do
    let c ← (P.certificateFromPem bytes).mapError fun e => s!"{what}: not a PEM certificate ({e})"
    c.der.mapError fun e => s!"{what}: {e}"
  else .ok bytes

/-- `signature::check_time`. -/
def checkTime (c : Certificate) (now : Duration) (what : String) : Except String Unit :=
  Except.ensure (¬ (now < c.notBefore.toUnixDuration ∨ c.notAfter.toUnixDuration < now))
    s!"{what}: not valid now (valid {c.notBefore.text} to {c.notAfter.text})"

/-! ## The purpose -/

/-- The loop of `push` in `oid_der`: the digits above the last, in base 128 and marked.  An arc has
at most 128 bits, and so at most 18 of them. -/
def arcHigh : ℕ → ℕ → Bytes → Bytes
  | 0, _, low => low
  | turns + 1, v, low =>
    if v = 0 then low else arcHigh turns (v / 128) (UInt8.ofNat (128 + v % 128) :: low)

/-- `push` in `oid_der`. -/
def arc (v : ℕ) : Bytes := arcHigh 18 (v / 128) [UInt8.ofNat (v % 128)]

/-- `oid_der`. -/
def oidDer (dotted : Oid) : Bytes :=
  let arcs := (dotted.toList.splitOn '.').map fun a => Nat.ofDigitChars 10 a 0
  let body := match arcs with
    | first :: second :: rest => arc (first * 40 + second) ++ rest.flatMap arc
    | _ => []
  [0x06, UInt8.ofNat body.length] ++ body

/-- `expected_eku_value`: a sequence of the registration purpose alone. -/
def expectedEkuValue : Bytes :=
  let oid := oidDer regEkuOid
  [0x30, UInt8.ofNat oid.length] ++ oid

example : expectedEkuValue = [0x30, 0x16, 0x06, 0x14, 0x69, 0x82, 0xB5, 0xF9, 0x98,
      0x92, 0xC4, 0x97,
    0xB2, 0x83, 0xE9, 0xA6, 0xE6, 0xE0, 0x94, 0xE5, 0x89, 0xA4, 0xD6, 0x40] := by decide +kernel

/-! ## The signer's certificate -/

/-- What the extensions of the signer's certificate say, the last of a kind for the others. -/
structure LeafExt where
  basic : Option BasicConstraints
  keyUsage : Option KeyUsage
  /-- The value, and whether it is critical. -/
  eku : Option (Bytes × Bool)
  deriving DecidableEq

/-- The body of the loop of `check_leaf`. -/
def leafExtension (e : LeafExt) (x : Extension) : Except String LeafExt :=
  if x.extnId = extBasicConstraints then do
    let basic ← (P.basicConstraintsFromDer x.extnValue).mapError fun er =>
      s!"signer certificate: basicConstraints {er}"
    return { e with basic := some basic }
  else if x.extnId = extKeyUsage then do
    let keyUsage ← (P.keyUsageFromDer x.extnValue).mapError fun er =>
      s!"signer certificate: keyUsage {er}"
    return { e with keyUsage := some keyUsage }
  else if x.extnId = extExtKeyUsage then
    .ok { e with eku := some (x.extnValue, x.critical) }
  else if x.critical then
    .error s!"signer certificate: critical extension {x.extnId} is not understood"
  else .ok e

/-- `check_leaf`. -/
def checkLeaf (c : Certificate) : Except String Unit := do
  let e ← c.extensions.foldlM (leafExtension P) ⟨none, none, none⟩
  Except.ensure ((e.basic.map fun b => b.ca).getD false = false)
    "signer certificate: marked as a CA"
  Except.ensure ((e.keyUsage.map fun k => k.contains .digitalSignature).getD false = true)
    "signer certificate: keyUsage lacks digitalSignature"
  match e.eku with
  | some (v, true) =>
    Except.ensure (v = expectedEkuValue)
      (s!"signer certificate: extended key usage is not exactly {regEkuOid} " ++
        "(Registration Signer)")
  | some (_, false) => .error "signer certificate: extended key usage is not critical"
  | none => .error s!"signer certificate: no extended key usage, want exactly {regEkuOid}"

/-! ## The container -/

/-- The one signer of a container, and what identifies its certificate. -/
def soleSigner (sd : SignedData) : Except String (SignerInfo × Name × Bytes) := do
  Except.ensure (sd.econtentType = idData)
    s!"signature: encapsulated type {sd.econtentType}, want id-data"
  Except.ensure (sd.econtent = false)
    "signature: content is embedded; a record signature is detached"
  match sd.signerInfos with
  | [si] => do
    Except.ensure (si.signedAttrs = false)
      ("signature: signed attributes present; sign with -noattr " ++
        "(the signature covers the record bytes)")
    Except.ensure (si.digestAlg = sha256) s!"signature: digest {si.digestAlg}, want SHA-256"
    Except.ensure (si.signatureAlgorithm = rsaEncryption ∨ si.signatureAlgorithm = sha256WithRsa)
      s!"signature: algorithm {si.signatureAlgorithm}, want RSA PKCS#1 v1.5"
    match si.sid with
    | .issuerAndSerialNumber issuer serialNumber => return (si, issuer, serialNumber)
    | .subjectKeyIdentifier =>
      .error "signature: signer identified by key identifier; want issuer and serial number"
  | l => .error s!"signature: {l.length} signers, want exactly one"

/-- The certificates of a container. -/
def certificates (sd : SignedData) : List Certificate :=
  sd.certificates.filterMap fun
    | .certificate c => some c
    | .other => none

/-- `signature::verify`. -/
def verify (record p7s rootDer : Bytes) (now : Duration) : Except String Signer := do
  let ci ← (P.contentInfoFromDer p7s).mapError fun e =>
    s!"signature: not a DER CMS ContentInfo ({e})"
  Except.ensure (ci.contentType = idSignedData)
    s!"signature: content type {ci.contentType}, want SignedData"
  let sd ← ci.content.mapError fun e => s!"signature: SignedData {e}"
  let (si, issuer, serialNumber) ← soleSigner sd
  let certs := certificates sd
  let leaf ← Except.ofOption "signature: the signer certificate is not in the container"
    (certs.find? fun c => c.issuer = issuer ∧ c.serialNumber = serialNumber)
  let sca ← Except.ofOption "signature: the Signing CA certificate is not in the container"
    (certs.find? fun c => c.subject = leaf.issuer)
  let root ← parse P rootDer "release root"
  forM [(leaf, "signer certificate"), (sca, "Signing CA"), (root, "release root")] fun (c, w) => do
    checkAlg c w
    checkTime c now w
  let rootKey ← rsaKey P root "release root"
  let scaKey ← rsaKey P sca "Signing CA"
  let leafKey ← rsaKey P leaf "signer certificate"
  checkIssuedBy root root "release root"
  checkSignedBy P root rootKey "release root"
  checkCa P root "release root"
  checkIssuedBy sca root "Signing CA"
  checkSignedBy P sca rootKey "Signing CA"
  checkCa P sca "Signing CA"
  checkIssuedBy leaf sca "signer certificate"
  checkSignedBy P leaf scaKey "signer certificate"
  checkLeaf P leaf
  let sig ← (P.signatureFromBytes si.signature).mapError fun e => s!"signature: {e}"
  Except.ensure (P.verify leafKey record sig = true)
    "signature: does not verify over the record bytes"
  return { leafSubject := leaf.subject.text, leafSerial := Hex.encode leaf.serialNumber,
           signingCaSubject := sca.subject.text,
           rootSha256 := Hex.encode (C.sha256 rootDer).toList }

/-! ## The path -/

/-- The certificates of the path: those that identify the signer and its issuer in the container,
and the root that was given. -/
structure SignerPath (p7s rootDer : Bytes) (leaf sca root : Certificate) : Prop where
  inContainer : ∃ ci sd si issuer serialNumber, P.contentInfoFromDer p7s = .ok ci ∧
    ci.content = .ok sd ∧ soleSigner sd = .ok (si, issuer, serialNumber) ∧
    ((certificates sd).find? fun c => c.issuer = issuer ∧
      c.serialNumber = serialNumber) = some leaf ∧
    ((certificates sd).find? fun c => c.subject = leaf.issuer) = some sca
  root : P.certificateFromDer rootDer = .ok root

variable {P C} {record p7s rootDer : Bytes} {now : Duration} {signer : Signer}
  {leaf sca root leaf' sca' root' : Certificate}

theorem SignerPath.unique (h : SignerPath P p7s rootDer leaf sca root)
    (h' : SignerPath P p7s rootDer leaf' sca' root') :
    leaf = leaf' ∧ sca = sca' ∧ root = root' := by
  obtain ⟨ci, sd, si, issuer, serialNumber, hci, hsd, hsole, hleaf, hsca⟩ := h.inContainer
  obtain ⟨ci', sd', si', issuer', serialNumber', hci', hsd', hsole', hleaf', hsca'⟩ :=
    h'.inContainer
  obtain rfl := Except.ok.inj (hci.symm.trans hci')
  obtain rfl := Except.ok.inj (hsd.symm.trans hsd')
  obtain ⟨rfl, rfl, rfl⟩ := Except.ok.inj (hsole.symm.trans hsole')
  obtain rfl := Option.some.inj (hleaf.symm.trans hleaf')
  obtain rfl := Option.some.inj (hsca.symm.trans hsca')
  exact ⟨rfl, rfl, Except.ok.inj (h.root.symm.trans h'.root)⟩

/-- An accepted signature has a path, and the extensions of its certificates were checked. -/
theorem verify_path (h : verify P C record p7s rootDer now = .ok signer) :
    ∃ leaf sca root, SignerPath P p7s rootDer leaf sca root ∧
      checkCa P root "release root" = .ok () ∧ checkCa P sca "Signing CA" = .ok () ∧
      checkLeaf P leaf = .ok () := by
  unfold verify at h
  simp only [Except.bind_eq_ok, Except.mapError_eq_ok, Except.ensure_eq_ok, Except.ofOption_eq_ok,
    Prod.exists] at h
  obtain ⟨ci, hci, _, _, sd, hsd, si, issuer, serialNumber, hsole, leaf, hleaf, sca,
    hsca, root, hroot, _, _, rootKey, _, scaKey, _, leafKey, _, _, _, _, _, _, hrootCa, _, _, _, _,
    _, hscaCa, _, _, _, _, _, hleafChecked, _⟩ := h
  exact ⟨leaf, sca, root, ⟨⟨ci, sd, si, issuer, serialNumber, hci, hsd, hsole, hleaf, hsca⟩,
    Except.mapError_eq_ok.mp hroot⟩, hrootCa, hscaCa, hleafChecked⟩

end TactiqAttest.Registrar.Signature
