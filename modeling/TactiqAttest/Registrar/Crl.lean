import TactiqAttest.Bytes.Hex
import TactiqAttest.Registrar.Chain

/-!
# Revocation

Both certificates below the root are looked up in the revocation list of the CA that issued them.
The lists are given, and `crl::check` is made at the time of the registration.

* `Current` is what a list that passes satisfies, apart from the time;
* `check_ok`: a list passes exactly if it satisfies that and the time is in its window;
* `checkChain_secs`: what passes at an instant passes at its whole seconds.
-/

namespace TactiqAttest.Registrar.Crl

open Chain

variable (P : Pki)

/-- `Checked`: what a list that passed contributes to the record. -/
structure Checked where
  thisUpdateUnix : UInt64
  nextUpdateUnix : UInt64
  deriving DecidableEq

/-- `crl::check`. -/
def check (crlDer : Bytes) (subject issuer : Certificate) (issuerKey : P.PublicKey) (now : Duration)
    (what : String) : Except String Checked := do
  let crl ← (P.crlFromDer crlDer).mapError fun e => s!"{what}: not a DER CRL ({e})"
  Except.ensure (crl.signatureAlgorithm = sha256WithRsa ∧ crl.tbsSignature = sha256WithRsa)
    (s!"{what}: signature algorithm {crl.signatureAlgorithm}/{crl.tbsSignature}, " ++
      "only sha256WithRSAEncryption accepted")
  let a ← crl.issuer.der.mapError fun e => s!"{what}: {e}"
  let b ← issuer.subject.der.mapError fun e => s!"{what}: {e}"
  Except.ensure (a = b)
    s!"{what}: CRL issuer `{crl.issuer.text}` is not the issuing CA `{issuer.subject.text}`"
  let e ← extensions P issuer what
  Except.ensure ((e.keyUsage.map fun k => k.contains .cRLSign).getD false = true)
    s!"{what}: the issuing CA's keyUsage does not include cRLSign"
  let tbsDer ← crl.tbsDer.mapError fun e => s!"{what}: {e}"
  let sigBytes ← Except.ofOption s!"{what}: signature has unused bits" crl.signature
  let sig ← (P.signatureFromBytes sigBytes).mapError fun e => s!"{what}: {e}"
  Except.ensure (P.verify issuerKey tbsDer sig = true)
    s!"{what}: CRL signature does not verify under the issuing CA's key"
  let next ← Except.ofOption s!"{what}: CRL has no nextUpdate" crl.nextUpdate
  Except.ensure (¬ (now < crl.thisUpdate.toUnixDuration ∨ next.toUnixDuration < now))
    (s!"{what}: CRL not current at the chain check time " ++
      s!"(thisUpdate {crl.thisUpdate.text}, nextUpdate {next.text})")
  forM crl.crlExtensions fun x =>
    Except.ensure (x.critical = false)
      s!"{what}: critical CRL extension {x.extnId} is not understood"
  forM crl.revokedCertificates fun r =>
    Except.ensure (r ≠ subject.serialNumber)
      s!"{what}: the certificate is REVOKED (serial {Hex.encode subject.serialNumber})"
  return { thisUpdateUnix := crl.thisUpdate.unix, nextUpdateUnix := next.unix }

/-- `check_chain`. -/
def checkChain (ekDer intDer rootDer ekCrl intCrl : Bytes) (now : Duration) :
    Except String (Checked × Checked) := do
  let ek ← parse P ekDer "EK certificate"
  let int ← parse P intDer "intermediate"
  let root ← parse P rootDer "root"
  let intKey ← rsaKey P int "intermediate"
  let rootKey ← rsaKey P root "root"
  let e ← check P ekCrl ek int intKey now "EK CRL"
  let i ← check P intCrl int root rootKey now "intermediate CRL"
  return (e, i)

/-! ## What passes -/

/-- What a list that passes satisfies, apart from the time. -/
structure Current (crlDer : Bytes) (subject issuer : Certificate) (issuerKey : P.PublicKey)
    (what : String) (crl : CertificateList) (next : Time) (checked : Checked) : Prop where
  parsed : P.crlFromDer crlDer = .ok crl
  alg : crl.signatureAlgorithm = sha256WithRsa ∧ crl.tbsSignature = sha256WithRsa
  issued : ∃ a, crl.issuer.der = .ok a ∧ issuer.subject.der = .ok a
  crlSign : ∃ e, extensions P issuer what = .ok e ∧
    (e.keyUsage.map fun k => k.contains .cRLSign).getD false = true
  signed : ∃ tbsDer sigBytes sig, crl.tbsDer = .ok tbsDer ∧ crl.signature = some sigBytes ∧
    P.signatureFromBytes sigBytes = .ok sig ∧ P.verify issuerKey tbsDer sig = true
  nextUpdate : crl.nextUpdate = some next
  noCritical : ∀ x ∈ crl.crlExtensions, x.critical = false
  notRevoked : ∀ r ∈ crl.revokedCertificates, r ≠ subject.serialNumber
  checked : checked = ⟨crl.thisUpdate.unix, next.unix⟩

variable {P} {crlDer ekDer intDer rootDer ekCrl intCrl : Bytes} {subject issuer : Certificate}
  {issuerKey : P.PublicKey} {now : Duration} {what : String} {checked : Checked}
  {pair : Checked × Checked}

/-- **A list passes exactly if it satisfies `Current` and the time is in its window.** -/
theorem check_ok : check P crlDer subject issuer issuerKey now what = .ok checked ↔
    ∃ crl next, Current P crlDer subject issuer issuerKey what crl next checked ∧
      ¬ now < crl.thisUpdate.toUnixDuration ∧ ¬ next.toUnixDuration < now := by
  unfold check
  simp only [Except.bind_eq_ok, Except.mapError_eq_ok, Except.ofOption_eq_ok, Except.ensure_eq_ok,
    Except.forM_eq_ok, Except.pure_eq_ok, not_or]
  constructor
  · rintro ⟨crl, hcrl, _, halg, a, ha, b, hb, _, rfl, e, he, _, hsign, tbs, htbs,
      sigBytes, hsigBytes,
      sig, hsig, _, hverify, next, hnext, _, ⟨hthis, hlast⟩, _, hcritical, _, hrevoked, rfl⟩
    exact ⟨crl, next, ⟨hcrl, halg, ⟨a, ha, hb⟩, ⟨e, he, hsign⟩,
      ⟨tbs, sigBytes, sig, htbs, hsigBytes, hsig, hverify⟩, hnext, hcritical, hrevoked, rfl⟩, hthis,
      hlast⟩
  · rintro ⟨crl, next, h, hthis, hlast⟩
    obtain ⟨a, ha, hb⟩ := h.issued
    obtain ⟨e, he, hsign⟩ := h.crlSign
    obtain ⟨tbs, sigBytes, sig, htbs, hsigBytes, hsig, hverify⟩ := h.signed
    exact ⟨crl, h.parsed, (), h.alg, a, ha, a, hb, (), rfl, e, he, (), hsign, tbs, htbs, sigBytes,
      hsigBytes, sig, hsig, (), hverify, next, h.nextUpdate, (), ⟨hthis, hlast⟩, (),
      h.noCritical, (), h.notRevoked, h.checked.symm⟩

/-- What passes at an instant passes at its whole seconds. -/
theorem check_secs (h : check P crlDer subject issuer issuerKey now what = .ok checked) :
    check P crlDer subject issuer issuerKey (.fromSecs now.secs) what = .ok checked := by
  obtain ⟨crl, next, hcurrent, hthis, hlast⟩ := check_ok.mp h
  refine check_ok.mpr ⟨crl, next, hcurrent, fun hlt => hthis ?_, Duration.not_lt_of_not_lt hlast⟩
  exact Duration.lt_of_secs_lt hlt

theorem checkChain_secs (h : checkChain P ekDer intDer rootDer ekCrl intCrl now = .ok pair) :
    checkChain P ekDer intDer rootDer ekCrl intCrl (.fromSecs now.secs) = .ok pair := by
  unfold checkChain at h ⊢
  simp only [Except.bind_eq_ok, Except.pure_eq_ok] at h ⊢
  obtain ⟨ek, hek, int, hint, root, hroot, intKey, hintKey, rootKey, hrootKey, e, he, i, hi, rfl⟩ :=
    h
  exact ⟨ek, hek, int, hint, root, hroot, intKey, hintKey, rootKey, hrootKey, e, check_secs he, i,
    check_secs hi, rfl⟩

end TactiqAttest.Registrar.Crl
