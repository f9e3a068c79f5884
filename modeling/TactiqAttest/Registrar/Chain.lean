import TactiqAttest.Envelope.Crypto
import TactiqAttest.Registrar.Certificate

/-!
# The certificate chain of an endorsement key

Exactly three links: the EK certificate, an intermediate, and a pinned root.  The path is given and
not built.  `chain::verify` checks algorithms and validity periods, then names, signatures and
extensions from the root down, then the size of the key.

* `Accepted` is what an accepted chain satisfies, apart from the time;
* `verify_ok`: a chain is accepted exactly if it satisfies that and is within its validity periods;
* `verify_secs`: what is accepted at an instant is accepted at its whole seconds.
-/

namespace TactiqAttest.Registrar

variable (P : Pki) (C : Crypto)

namespace Chain

def sha256WithRsa : Oid := "1.2.840.113549.1.1.11"
def extBasicConstraints : Oid := "2.5.29.19"
def extKeyUsage : Oid := "2.5.29.15"
def extSubjectAltName : Oid := "2.5.29.17"
def extExtKeyUsage : Oid := "2.5.29.37"
def tcgKpEkCertificate : Oid := "2.23.133.8.1"

/-- `UNDERSTOOD_CRITICAL`. -/
def understoodCritical : List Oid :=
  [extBasicConstraints, extKeyUsage, extSubjectAltName, extExtKeyUsage]

end Chain

open Chain

/-- What an accepted chain returns: the EK public key and the digest of the root. -/
structure Chain where
  ekPublic : P.PublicKey
  rootSha256 : List.Vector UInt8 32

namespace Chain

/-! ## The checks -/

/-- `chain::parse`. -/
def parse (der : Bytes) (what : String) : Except String Certificate :=
  (P.certificateFromDer der).mapError fun e => s!"{what}: not a DER certificate ({e})"

/-- `rsa_key`. -/
def rsaKey (c : Certificate) (what : String) : Except String P.PublicKey := do
  let spki ← c.subjectPublicKeyInfo.mapError fun e => s!"{what}: {e}"
  (P.publicKeyFromDer spki).mapError fun e => s!"{what}: not an RSA key ({e})"

/-- `check_alg`. -/
def checkAlg (c : Certificate) (what : String) : Except String Unit :=
  Except.ensure (c.signatureAlgorithm = sha256WithRsa ∧ c.tbsSignature = sha256WithRsa)
    (s!"{what}: signature algorithm {c.signatureAlgorithm}/{c.tbsSignature}, " ++
      "only sha256WithRSAEncryption accepted")

/-- `check_signed_by`. -/
def checkSignedBy (c : Certificate) (issuerKey : P.PublicKey) (what : String) :
    Except String Unit := do
  let tbs ← c.tbsDer.mapError fun e => s!"{what}: {e}"
  let sigBytes ← Except.ofOption s!"{what}: signature has unused bits" c.signature
  let sig ← (P.signatureFromBytes sigBytes).mapError fun e => s!"{what}: {e}"
  Except.ensure (P.verify issuerKey tbs sig = true)
    s!"{what}: signature does not verify under its issuer's key"

/-- `check_issued_by`. -/
def checkIssuedBy (c issuer : Certificate) (what : String) : Except String Unit := do
  let a ← c.issuer.der.mapError fun e => s!"{what}: {e}"
  let b ← issuer.subject.der.mapError fun e => s!"{what}: {e}"
  Except.ensure (a = b) (s!"{what}: issuer `{c.issuer.text}` is not the next certificate's " ++
    s!"subject `{issuer.subject.text}`")

/-- `chain::check_time`. -/
def checkTime (c : Certificate) (now : Duration) (what : String) : Except String Unit :=
  Except.ensure (¬ (now < c.notBefore.toUnixDuration ∨ c.notAfter.toUnixDuration < now))
    (s!"{what}: not valid at the registration time " ++
      s!"(valid {c.notBefore.text} to {c.notAfter.text})")

/-- `Ext`. -/
structure Ext where
  basic : Option BasicConstraints
  keyUsage : Option KeyUsage
  eku : Option ExtendedKeyUsage
  deriving DecidableEq

/-- The body of the loop of `extensions`. -/
def extension (what : String) (e : Ext) (x : Extension) : Except String Ext := do
  let e ←
    if x.extnId = extBasicConstraints then do
      let basic ← (P.basicConstraintsFromDer x.extnValue).mapError fun er =>
        s!"{what}: basicConstraints {er}"
      pure { e with basic := some basic }
    else if x.extnId = extKeyUsage then do
      let keyUsage ← (P.keyUsageFromDer x.extnValue).mapError fun er => s!"{what}: keyUsage {er}"
      pure { e with keyUsage := some keyUsage }
    else if x.extnId = extExtKeyUsage then do
      let eku ← (P.extKeyUsageFromDer x.extnValue).mapError fun er =>
        s!"{what}: extKeyUsage {er}"
      pure { e with eku := some eku }
    else pure e
  Except.ensure (¬ (x.critical = true ∧ x.extnId ∉ understoodCritical))
    s!"{what}: critical extension {x.extnId} is not understood"
  return e

/-- `extensions`. -/
def extensions (c : Certificate) (what : String) : Except String Ext :=
  c.extensions.foldlM (extension P what) ⟨none, none, none⟩

/-- `check_ca`. -/
def checkCa (c : Certificate) (what : String) : Except String Unit := do
  let e ← extensions P c what
  Except.ensure ((e.basic.map fun b => b.ca).getD false = true)
    s!"{what}: not a CA (basicConstraints cA is not TRUE)"
  Except.ensure ((e.keyUsage.map fun k => k.contains .keyCertSign).getD false = true)
    s!"{what}: keyUsage does not include keyCertSign"

/-- `check_ek_leaf`. -/
def checkEkLeaf (c : Certificate) : Except String Unit := do
  let e ← extensions P c "EK certificate"
  Except.ensure ((e.basic.map fun b => b.ca).getD false = false) "EK certificate: marked as a CA"
  Except.ensure ((e.eku.map fun u => u.contains tcgKpEkCertificate).getD false = true)
    (s!"EK certificate: extended key usage lacks {tcgKpEkCertificate} " ++
      "(tcg-kp-EKCertificate)")

/-- `chain::verify`. -/
def verify (ekDer intDer rootDer : Bytes) (now : Duration) : Except String (Chain P) := do
  let ek ← parse P ekDer "EK certificate"
  let int ← parse P intDer "intermediate"
  let root ← parse P rootDer "root"
  forM [(ek, "EK certificate"), (int, "intermediate"), (root, "root")] fun (c, w) => do
    checkAlg c w
    checkTime c now w
  let rootKey ← rsaKey P root "root"
  let intKey ← rsaKey P int "intermediate"
  let ekKey ← rsaKey P ek "EK certificate"
  checkIssuedBy root root "root"
  checkSignedBy P root rootKey "root"
  checkCa P root "root"
  checkIssuedBy int root "intermediate"
  checkSignedBy P int rootKey "intermediate"
  checkCa P int "intermediate"
  checkIssuedBy ek int "EK certificate"
  checkSignedBy P ek intKey "EK certificate"
  checkEkLeaf P ek
  Except.ensure (P.size ekKey = 256)
    s!"EK certificate: RSA key of {P.size ekKey * 8} bits, want 2048"
  return { ekPublic := ekKey, rootSha256 := C.sha256 rootDer }

/-! ## What is accepted -/

/-- The certificate is within its validity period. -/
def Valid (c : Certificate) (now : Duration) : Prop :=
  ¬ now < c.notBefore.toUnixDuration ∧ ¬ c.notAfter.toUnixDuration < now

/-- The key of the issuer signed the certificate, and names and algorithms fit. -/
structure Link (c issuer : Certificate) (issuerKey : P.PublicKey) (what : String) : Prop where
  alg : checkAlg c what = .ok ()
  issued : checkIssuedBy c issuer what = .ok ()
  signed : checkSignedBy P c issuerKey what = .ok ()

/-- What an accepted chain satisfies, apart from the time. -/
structure Accepted (ekDer intDer rootDer : Bytes) (ek int root : Certificate) (chain : Chain P) :
    Prop where
  ekParsed : parse P ekDer "EK certificate" = .ok ek
  intParsed : parse P intDer "intermediate" = .ok int
  rootParsed : parse P rootDer "root" = .ok root
  ekKey : rsaKey P ek "EK certificate" = .ok chain.ekPublic
  links : ∃ rootKey intKey, rsaKey P root "root" = .ok rootKey ∧
    rsaKey P int "intermediate" = .ok intKey ∧ Link P root root rootKey "root" ∧
    Link P int root rootKey "intermediate" ∧ Link P ek int intKey "EK certificate"
  rootCa : checkCa P root "root" = .ok ()
  intCa : checkCa P int "intermediate" = .ok ()
  ekLeaf : checkEkLeaf P ek = .ok ()
  size : P.size chain.ekPublic = 256
  rootSha256 : chain.rootSha256 = C.sha256 rootDer

variable {P C} {ekDer intDer rootDer : Bytes} {now : Duration} {chain : Chain P} {c : Certificate}

theorem checkTime_ok {what : String} : checkTime c now what = .ok () ↔ Valid c now := by
  rw [checkTime, Except.ensure_eq_ok, not_or]
  rfl

theorem Valid.secs (h : Valid c now) : Valid c (.fromSecs now.secs) :=
  ⟨fun hlt => h.1 (Duration.lt_of_secs_lt hlt), Duration.not_lt_of_not_lt h.2⟩

/-- **A chain is accepted exactly if it satisfies `Accepted` and its certificates are valid.** -/
theorem verify_ok : verify P C ekDer intDer rootDer now = .ok chain ↔
    ∃ ek int root, Accepted P C ekDer intDer rootDer ek int root chain ∧
      Valid ek now ∧ Valid int now ∧ Valid root now := by
  unfold verify
  simp only [Except.bind_eq_ok, Except.forM_eq_ok, List.forall_mem_cons, List.not_mem_nil,
    Except.pure_eq_ok, Except.ensure_eq_ok, checkTime_ok]
  constructor
  · rintro ⟨ek, hek, int, hint, root, hroot, _, ⟨⟨_, hekAlg, hekTime⟩, ⟨_, hintAlg, hintTime⟩,
      ⟨_, hrootAlg, hrootTime⟩, -⟩, rootKey, hrootKey, intKey, hintKey, ekKey, hekKey, _, hrootIss,
      _, hrootSig, _, hrootCa, _, hintIss, _, hintSig, _, hintCa, _, hekIss, _,
      hekSig, _, hekLeaf, _, hsize, rfl⟩
    exact ⟨ek, int, root, ⟨hek, hint, hroot, hekKey, ⟨rootKey, intKey, hrootKey, hintKey,
      ⟨hrootAlg, hrootIss, hrootSig⟩, ⟨hintAlg, hintIss, hintSig⟩, ⟨hekAlg, hekIss, hekSig⟩⟩,
      hrootCa, hintCa, hekLeaf, hsize, rfl⟩, hekTime, hintTime, hrootTime⟩
  · rintro ⟨ek, int, root, h, hekTime, hintTime, hrootTime⟩
    obtain ⟨rootKey, intKey, hrootKey, hintKey, hrootLink, hintLink, hekLink⟩ := h.links
    refine ⟨ek, h.ekParsed, int, h.intParsed, root, h.rootParsed, (), ⟨⟨(), hekLink.alg, hekTime⟩,
      ⟨(), hintLink.alg, hintTime⟩, ⟨(), hrootLink.alg, hrootTime⟩, fun _ h => h.elim⟩, rootKey,
      hrootKey, intKey, hintKey, chain.ekPublic, h.ekKey, (), hrootLink.issued, (),
      hrootLink.signed,
      (), h.rootCa, (), hintLink.issued, (), hintLink.signed, (), h.intCa, (), hekLink.issued, (),
      hekLink.signed, (), h.ekLeaf, (), h.size, ?_⟩
    rw [← h.rootSha256]

/-- What is accepted at an instant is accepted at its whole seconds. -/
theorem verify_secs (h : verify P C ekDer intDer rootDer now = .ok chain) :
    verify P C ekDer intDer rootDer (.fromSecs now.secs) = .ok chain := by
  obtain ⟨ek, int, root, haccepted, hek, hint, hroot⟩ := verify_ok.mp h
  exact verify_ok.mpr ⟨ek, int, root, haccepted, hek.secs, hint.secs, hroot.secs⟩

end Chain

end TactiqAttest.Registrar
