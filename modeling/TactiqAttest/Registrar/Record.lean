import TactiqAttest.Appraise.AkRule
import TactiqAttest.Bytes.Hex
import TactiqAttest.Registrar.Crl
import TactiqAttest.Registrar.MakeCred
import TactiqAttest.Registrar.Signature

/-!
# Registration records

The record of a registration and the state that waits for the device's answer, with the checks that
are made of them.  Binary fields are in hexadecimal.  Records are JSON files, which `serde_json`
writes and reads; it is a parameter, with what the code relies on: what was written reads back.

* `ctEq_iff`: the comparison in constant time is equality;
* `judge` is what `cmd_verify` makes of a record before it looks at a signature, and `judge_ok` says
  what a record of format 2 has to satisfy.
-/

namespace TactiqAttest.Registrar

open Appraise Envelope

/-! ## The formats -/

def recordFormat : String := "tactiq-ak-registration/2"
def recordFormatV1 : String := "tactiq-ak-registration/1"
def pendingFormat : String := "tactiq-ak-registration-pending/1"
def ekNvIndex : String := "0x01C00002"

/-- `CHAIN_CHECK`. -/
def chainCheckText : String :=
  "EK <- intermediate <- pinned root; sha256WithRSAEncryption; " ++
    "issuer/subject byte match; signatures; validity at chain_checked_utc; " ++
    "CA flags and keyCertSign on both CAs; EK not a CA, EKU tcg-kp-EKCertificate; " ++
    "unknown critical extensions refused"

/-- `REVOCATION_CHECK`. -/
def revocationCheckText : String :=
  "EK certificate against the CRL of its issuing CA, issuing CA " ++
    "against the CRL of the root; sha256WithRSAEncryption by the issuing key with cRLSign; " ++
    "CRL issuer byte match; thisUpdate <= chain_checked_utc <= nextUpdate; " ++
    "no critical CRL extension; serial not listed"

/-- `Record`. -/
structure Record where
  format : String
  deviceId : String
  registrar : String
  chainCheckedUtc : String
  chainCheckedUnix : UInt64
  registeredUtc : String
  ekNvIndex : String
  ekCertificate : String
  intermediateCertificate : String
  rootSha256 : String
  chainCheck : String
  revocationChecked : Bool
  /-- From here to the last date: format 2 only. -/
  revocationCheck : Option String
  ekCrl : Option String
  ekCrlThisUpdateUtc : Option String
  ekCrlNextUpdateUtc : Option String
  intermediateCrl : Option String
  intermediateCrlThisUpdateUtc : Option String
  intermediateCrlNextUpdateUtc : Option String
  akPublic : String
  akName : String
  credentialBlob : String
  secretSha256 : String
  /-- Format 1 only. -/
  signed : Option Bool
  deriving DecidableEq

/-- `Pending`. -/
structure Pending where
  format : String
  deviceId : String
  registrar : String
  chainCheckedUnix : UInt64
  ekCertificate : String
  intermediateCertificate : String
  rootSha256 : String
  ekCrl : String
  ekCrlThisUpdateUnix : UInt64
  ekCrlNextUpdateUnix : UInt64
  intermediateCrl : String
  intermediateCrlThisUpdateUnix : UInt64
  intermediateCrlNextUpdateUnix : UInt64
  akPublic : String
  akName : String
  credentialBlob : String
  secret : String
  deriving DecidableEq

/-- A blank of JSON. -/
def IsBlank (b : UInt8) : Prop := b = 0x20 ∨ b = 0x09 ∨ b = 0x0A ∨ b = 0x0D

/-- What the code calls of `serde_json` for one type.  Writing a structure of texts, numbers and
flags does not fail. -/
structure Json (α : Type) where
  /-- `to_vec_pretty`. -/
  toVecPretty : α → Bytes
  /-- `from_slice`. -/
  fromSlice : Bytes → Except String α
  /-- What was written reads back, blanks after it or not. -/
  fromSlice_toVecPretty : ∀ a blanks, (∀ b ∈ blanks, IsBlank b) →
    fromSlice (toVecPretty a ++ blanks) = .ok a

/-- The crates the registrar links against. -/
structure Crates where
  pki : Pki
  crypto : Crypto
  credential : CredentialCrypto pki
  /-- `VerifyingKey::from_encoded_point`, from the coordinates. -/
  fromAffine : (x y : Bytes) → Except String crypto.VerifyingKey
  pendingJson : Json Pending
  recordJson : Json Record

variable (K : Crates)

/-! ## Checks -/

/-- `validate_id` of the registrar. -/
def validateId (id : String) : Except String Unit :=
  let bytes := Chars.utf8 id.toList
  Except.ensure (bytes ≠ [] ∧ bytes.length ≤ deviceIdLen ∧ bytes.all Text.isGraphic = true)
    (s!"device id {Chars.debug id.toList}: 1..={deviceIdLen} printable ASCII bytes, " ++
      "no spaces")

/-- `check_ak`: the rule of the verifier, and the name. -/
def checkAk (akPublic : Bytes) : Except String (List.Vector UInt8 34) := do
  let _ ← (AkKey.fromTpm2bPublic K.fromAffine akPublic).mapError fun e =>
    s!"AK public area refused by the AK rule: {Chars.debug e.toList}"
  let p ← EccPublic.parseTpm2b akPublic
  p.name K.crypto

/-- `parse_answer`: blanks are ignored, and so is a leading `certinfodata:`. -/
def parseAnswer (text : List Char) : Except String (List.Vector UInt8 32) := do
  let t := text.filter fun c => !Text.isWhitespace c
  let t := (Chars.stripPrefix "certinfodata:".toList t).getD t
  let b ← (Hex.decode (String.ofList t)).mapError fun e => s!"answer is not hex: {e}"
  if h : b.length = MakeCred.secretLen then .ok ⟨b, h⟩
  else .error s!"answer is {b.length} bytes, want {MakeCred.secretLen}"

/-- The answer in a file. -/
def answerOf (raw : Bytes) : Except String (List.Vector UInt8 32) := do
  Except.ensure (Text.utf8Valid raw = true) "answer is not text"
  parseAnswer (Text.lossy raw)

/-- `ct_eq`. -/
def ctEq (a b : Bytes) : Bool :=
  a.length == b.length && (a.zip b).foldl (fun acc p => acc ||| (p.1 ^^^ p.2)) 0 == 0

/-- `unhex`. -/
def unhex (field v : String) : Except String Bytes :=
  (Hex.decode v).mapError fun e => s!"record field {field}: {e}"

/-- The checks of `cmd_verify` on the format.  Whether it is format 2. -/
def checkFormat (rec : Record) : Except String Bool :=
  if rec.format = recordFormat then do
    Except.ensure (rec.signed = none)
      ("format 2 record carries a `signed` field; " ++
        "a signature is a separate file (--sig)")
    Except.ensure (rec.revocationChecked = true) "format 2 record without a revocation check"
    return true
  else if rec.format = recordFormatV1 then do
    Except.ensure (rec.signed = some false)
      ("format 1 record: field `signed` must be false; " ++
        "a signature is a separate file (--sig)")
    Except.ensure (rec.revocationChecked = false)
      "format 1 record claims a revocation check format 1 never made"
    return false
  else .error s!"record format {rec.format}"

/-- A field that format 2 has. -/
def need (field : String) (v : Option String) : Except String String :=
  Except.ofOption s!"format 2 record without {field}" v

/-- What `{:?}` makes of an optional text. -/
def debugOption : Option String → String
  | some s => s!"Some({Chars.debug s.toList})"
  | none => "None"

/-- The checks of `cmd_verify` on the revocation lists of a record. -/
def judgeCrls (rec : Record) (ekDer intDer rootDer : Bytes) (time : Duration) :
    Except String Unit := do
  let ekCrl ← unhex "ek_crl" (← need "ek_crl" rec.ekCrl)
  let intCrl ← unhex "intermediate_crl" (← need "intermediate_crl" rec.intermediateCrl)
  let (ec, ic) ← Crl.checkChain K.pki ekDer intDer rootDer ekCrl intCrl time
  forM [("ek_crl_this_update_utc", rec.ekCrlThisUpdateUtc, ec.thisUpdateUnix),
      ("ek_crl_next_update_utc", rec.ekCrlNextUpdateUtc, ec.nextUpdateUnix),
      ("intermediate_crl_this_update_utc", rec.intermediateCrlThisUpdateUtc, ic.thisUpdateUnix),
      ("intermediate_crl_next_update_utc", rec.intermediateCrlNextUpdateUtc, ic.nextUpdateUnix)]
    fun (f, got, want) =>
      Except.ensure (got = some (utc want))
        s!"record field {f} {debugOption got} does not match the CRL ({utc want})"

/-- The checks of `cmd_verify` on a record, under the root certificate it names.  The AK public
area. -/
def judge (rec : Record) (v2 : Bool) (rootDer : Bytes) : Except String Bytes := do
  let rootSha := Hex.encode (K.crypto.sha256 rootDer).toList
  Except.ensure (rootSha = rec.rootSha256)
    s!"root: sha256 {rootSha}, record names {rec.rootSha256}"
  let ekDer ← unhex "ek_certificate" rec.ekCertificate
  let intDer ← unhex "intermediate_certificate" rec.intermediateCertificate
  let time := Duration.fromSecs rec.chainCheckedUnix
  let _ ← Chain.verify K.pki K.crypto ekDer intDer rootDer time
  if v2 then judgeCrls K rec ekDer intDer rootDer time else pure ()
  let akPublic ← unhex "ak_public" rec.akPublic
  let name ← checkAk K akPublic
  Except.ensure (Hex.encode name.toList = rec.akName)
    (s!"ak_name {rec.akName} does not match the AK public area " ++
      s!"({Hex.encode name.toList})")
  let blob ← unhex "credential_blob" rec.credentialBlob
  let _ ← MakeCred.parseFile blob
  let secretSha ← unhex "secret_sha256" rec.secretSha256
  Except.ensure (secretSha.length = 32) "secret_sha256 is not 32 bytes"
  return akPublic

/-! ## What they accept -/

/-- The comparison in constant time is equality. -/
theorem ctEq_iff {a b : Bytes} : ctEq a b = true ↔ a = b := by
  have hfold : ∀ (l : List (UInt8 × UInt8)) (acc : UInt8),
      l.foldl (fun acc p => acc ||| (p.1 ^^^ p.2)) acc = 0 ↔ acc = 0 ∧ ∀ p ∈ l, p.1 = p.2 := by
    intro l
    induction l with
    | nil => simp
    | cons p l ih =>
      intro acc
      rw [List.foldl_cons, ih, UInt8.or_eq_zero_iff, UInt8.xor_eq_zero_iff, List.forall_mem_cons,
        and_assoc]
  rw [ctEq, Bool.and_eq_true, beq_iff_eq, beq_iff_eq, hfold]
  constructor
  · rintro ⟨hlen, -, hall⟩
    refine List.ext_getElem hlen fun i hi hi' => hall (a[i], b[i]) ?_
    exact List.mem_iff_getElem.mpr ⟨i, by simp [hi, hi'], by simp⟩
  · rintro rfl
    refine ⟨rfl, rfl, fun p hp => ?_⟩
    obtain ⟨i, hi, rfl⟩ := List.mem_iff_getElem.mp hp
    simp

variable {K} {rec : Record} {rootDer akPublic : Bytes}

/-- What the revocation lists of a record satisfy, with what the check made of them. -/
structure CrlsJudged (K : Crates) (rec : Record) (ekDer intDer rootDer : Bytes) (time : Duration)
    (ec ic : Crl.Checked) : Prop where
  checked : ∃ ekHex ekCrl intHex intCrl, rec.ekCrl = some ekHex ∧ Hex.decode ekHex = .ok ekCrl ∧
    rec.intermediateCrl = some intHex ∧ Hex.decode intHex = .ok intCrl ∧
    Crl.checkChain K.pki ekDer intDer rootDer ekCrl intCrl time = .ok (ec, ic)
  ekThis : rec.ekCrlThisUpdateUtc = some (utc ec.thisUpdateUnix)
  ekNext : rec.ekCrlNextUpdateUtc = some (utc ec.nextUpdateUnix)
  intThis : rec.intermediateCrlThisUpdateUtc = some (utc ic.thisUpdateUnix)
  intNext : rec.intermediateCrlNextUpdateUtc = some (utc ic.nextUpdateUnix)

/-- What a record of format 2 satisfies that the checks accept. -/
structure Judged (K : Crates) (rec : Record) (rootDer akPublic : Bytes) : Prop where
  root : Hex.encode (K.crypto.sha256 rootDer).toList = rec.rootSha256
  chain : ∃ ekDer intDer chain ec ic, Hex.decode rec.ekCertificate = .ok ekDer ∧
    Hex.decode rec.intermediateCertificate = .ok intDer ∧
    Chain.verify K.pki K.crypto ekDer intDer rootDer (.fromSecs rec.chainCheckedUnix) = .ok chain ∧
    CrlsJudged K rec ekDer intDer rootDer (.fromSecs rec.chainCheckedUnix) ec ic
  ak : Hex.decode rec.akPublic = .ok akPublic
  name : ∃ name, checkAk K akPublic = .ok name ∧ Hex.encode name.toList = rec.akName
  blob : ∃ blob c, Hex.decode rec.credentialBlob = .ok blob ∧ MakeCred.parseFile blob = .ok c
  secret : ∃ secretSha, Hex.decode rec.secretSha256 = .ok secretSha ∧ secretSha.length = 32

theorem judgeCrls_ok {ekDer intDer : Bytes} {time : Duration} :
    judgeCrls K rec ekDer intDer rootDer time = .ok () ↔
      ∃ ec ic, CrlsJudged K rec ekDer intDer rootDer time ec ic := by
  unfold judgeCrls need unhex
  simp only [Except.bind_eq_ok, Except.ofOption_eq_ok, Except.mapError_eq_ok, Except.forM_eq_ok,
    Except.ensure_eq_ok, List.forall_mem_cons, Prod.exists]
  constructor
  · rintro ⟨ekHex, hekHex, ekCrl, hekCrl, intHex, hintHex, intCrl, hintCrl, ec, ic,
      hchecked, hekThis, hekNext, hintThis, hintNext, -⟩
    exact ⟨ec, ic, ⟨ekHex, ekCrl, intHex, intCrl, hekHex, hekCrl, hintHex, hintCrl, hchecked⟩,
      hekThis, hekNext, hintThis, hintNext⟩
  · rintro ⟨ec, ic, ⟨ekHex, ekCrl, intHex, intCrl, hekHex, hekCrl, hintHex, hintCrl, hchecked⟩,
      hekThis, hekNext, hintThis, hintNext⟩
    exact ⟨ekHex, hekHex, ekCrl, hekCrl, intHex, hintHex, intCrl, hintCrl, ec, ic,
      hchecked, hekThis, hekNext, hintThis, hintNext, fun _ h => by cases h⟩

/-- **A record of format 2 is accepted exactly if it satisfies `Judged`.** -/
theorem judge_ok : judge K rec true rootDer = .ok akPublic ↔ Judged K rec rootDer akPublic := by
  unfold judge unhex
  simp only [Except.bind_eq_ok, Except.mapError_eq_ok, Except.ensure_eq_ok,
    Except.pure_eq_ok, if_true]
  constructor
  · rintro ⟨_, hroot, ekDer, hek, intDer, hint, chain, hchain, _, hcrls, ak, hak, name, hname, _,
      heq, blob, hblob, c, hc, sha, hsha, _, hlen, rfl⟩
    obtain ⟨ec, ic, hjudged⟩ := judgeCrls_ok.mp hcrls
    exact ⟨hroot, ⟨ekDer, intDer, chain, ec, ic, hek, hint, hchain, hjudged⟩, hak,
      ⟨name, hname, heq⟩, ⟨blob, c, hblob, hc⟩, ⟨sha, hsha, hlen⟩⟩
  · intro h
    obtain ⟨ekDer, intDer, chain, ec, ic, hek, hint, hchain, hjudged⟩ := h.chain
    obtain ⟨name, hname, heq⟩ := h.name
    obtain ⟨blob, c, hblob, hc⟩ := h.blob
    obtain ⟨sha, hsha, hlen⟩ := h.secret
    exact ⟨(), h.root, ekDer, hek, intDer, hint, chain, hchain, (),
      judgeCrls_ok.mpr ⟨ec, ic, hjudged⟩,
      akPublic, h.ak, name, hname, (), heq, blob, hblob, c, hc, sha, hsha, (), hlen, rfl⟩

theorem checkFormat_v2 (hformat : rec.format = recordFormat) {v2 : Bool} :
    checkFormat rec = .ok v2 ↔ v2 = true ∧ rec.signed = none ∧ rec.revocationChecked = true := by
  unfold checkFormat
  rw [if_pos hformat]
  simp only [Except.bind_eq_ok, Except.ensure_eq_ok, Except.pure_eq_ok]
  constructor
  · rintro ⟨_, hsigned, _, hchecked, rfl⟩
    exact ⟨rfl, hsigned, hchecked⟩
  · rintro ⟨rfl, hsigned, hchecked⟩
    exact ⟨(), hsigned, (), hchecked, rfl⟩

end TactiqAttest.Registrar
