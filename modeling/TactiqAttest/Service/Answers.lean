import TactiqAttest.Appraise.StopReceipt
import TactiqAttest.Service.Core

/-!
# What the service answers, the verifier accepts

The device assembles a receipt with one set of encoders, and the verifier takes it apart with
another set of parsers and eleven checks.  Here the two are put together, for a TPM that answers
honestly: whatever receipt the service returns --- at any counter value, with any operator's release
or none on the disk, for any call or any challenge --- passes, and the finding is what the service
found.

* `yields_sign_ok`: what it takes for `sign` to return a receipt;
* `sign_verifies`: the receipt it returns has a genuine reading;
* `receipts_verify`: so every answer of `status` and every refusal of `admit` passes.
-/

open BigEndian

namespace TactiqAttest.Service

open Envelope Stop Appraise Prog

variable {C : Crypto}

/-! ## A device and its verifier -/

/-- A device id: 1 to 16 printable ASCII characters.  The device holds its own to it when the
service starts (`read_device_id`), and the verifier's tool the one it is given (`device_id`). -/
def ValidDeviceId (id : Bytes) : Prop :=
  id ≠ [] ∧ id.length ≤ deviceIdLen ∧ id.all Text.isGraphic = true

instance (id : Bytes) : Decidable (ValidDeviceId id) :=
  inferInstanceAs (Decidable (_ ∧ _ ∧ _))

/-- A string that fits the field, followed by zeros. -/
def zeroPadded (s : Bytes) (h : s.length ≤ deviceIdLen) : List.Vector UInt8 deviceIdLen :=
  ⟨s ++ List.replicate (deviceIdLen - s.length) 0, by
    rw [List.length_append, List.length_replicate, Nat.add_sub_cancel' h]⟩

theorem zeroPadded_eq {s : Bytes} (h : s.length ≤ deviceIdLen) :
    zeroPadded s h = padDeviceId s := by
  apply List.Vector.toList_injective
  show s ++ _ = s.take deviceIdLen ++ _
  rw [List.take_of_length_le h]

/-- `device_id` of the verifier's tool: the id it expects in the message. -/
def expectedDeviceId (s : Bytes) : Except String (List.Vector UInt8 deviceIdLen) :=
  if h : ValidDeviceId s then .ok (zeroPadded s h.2.1)
  else .error s!"--device {Text.debug s}: 1..={deviceIdLen} printable ASCII characters"

/-- The id the verifier expects is the one the device puts into the message. -/
theorem expectedDeviceId_ok {s : Bytes} {d : List.Vector UInt8 deviceIdLen} :
    expectedDeviceId s = .ok d ↔ ValidDeviceId s ∧ d = padDeviceId s := by
  unfold expectedDeviceId
  by_cases h : ValidDeviceId s
  · rw [dif_pos h, zeroPadded_eq h.2.1]
    exact ⟨fun hd => ⟨h, (Except.ok.inj hd).symm⟩, fun hd => congrArg Except.ok hd.2.symm⟩
  · rw [dif_neg h]
    exact ⟨fun hd => (by cases hd), fun hd => absurd hd.1 h⟩

/-- A TPM during one answer of the service: its counter and its PCRs stand still, and it is not
restarted. -/
structure SteadyTpm (C : Crypto) where
  ak : AkKey C
  counter : UInt64
  /-- The values of the PCRs the service quotes, concatenated. -/
  pcrState : Bytes
  resetCount : UInt32
  restartCount : UInt32

namespace SteadyTpm

variable (tpm : SteadyTpm C)

def InBoot (clock : TpmClock) : Prop :=
  clock.resetCount = tpm.resetCount ∧ clock.restartCount = tpm.restartCount

/-- A certify of the stop counter, bound to the qualifying data and signed under the key. -/
structure Certified (qualifying : List.Vector UInt8 32) (attest sig : Bytes) (i : NvCertifyInfo)
    (firmwareVersion : UInt64) : Prop where
  signed : C.Verifies tpm.ak.vk attest sig
  wire : i.Wire
  attest : attest = i.bytes firmwareVersion
  extraData : i.extraData = qualifying.toList
  indexName : i.indexName = (stopIndexName C).toList
  offset : i.offset = 0
  contents : i.contents = be tpm.counter
  boot : tpm.InBoot i.clock

/-- A quote of the service's PCRs, bound to the qualifying data and signed under the key. -/
structure Quoted (ctx : Ctx C) (qualifying : List.Vector UInt8 32) (attest sig : Bytes)
    (q : Quote) : Prop where
  signed : C.Verifies tpm.ak.vk attest sig
  wire : q.Wire
  attest : attest = q.bytes
  extraData : q.extraData = qualifying.toList
  banks : q.pcrBanks.iter = [(ctx.pcrAlg, ctx.pcrBitmap.toList)]
  digest : q.pcrDigest = (C.sha256 tpm.pcrState).toList
  boot : tpm.InBoot q.clockInfo

/-- What the TPM may answer to a call of the service.  Any call may fail, and the files are not the
TPM's: they may hold anything. -/
def Answers (ctx : Ctx C) : (op : Op) → Reply op → Prop
  | .readCounter, r => ∀ v, r = .ok v → v = tpm.counter
  | .certify qualifying, r => ∀ attest sig, r = .ok (attest, sig) →
    ∃ i firmwareVersion, tpm.Certified qualifying attest sig i firmwareVersion
  | .pcrRead spec, r => ∀ pcrs, r = .ok pcrs → spec = ctx.pcrSpec → pcrs = tpm.pcrState
  | .quote qualifying spec, r => ∀ attest sig, r = .ok (attest, sig) → spec = ctx.pcrSpec →
    ∃ q, tpm.Quoted ctx qualifying attest sig q
  | .increment, _ => True
  | .readFile _ _, _ => True

/-- Every call of the history was answered honestly. -/
def Honest (ctx : Ctx C) (cs : List (Exchange Op Reply)) : Prop :=
  ∀ x ∈ cs, tpm.Answers ctx x.1 x.2

theorem Honest.of_cons {ctx : Ctx C} {x : Exchange Op Reply} {cs : List (Exchange Op Reply)}
    (h : tpm.Honest ctx (x :: cs)) : tpm.Honest ctx cs :=
  fun y hy => h y (List.mem_cons_of_mem _ hy)

theorem Honest.append_right {ctx : Ctx C} {cs cs' : List (Exchange Op Reply)}
    (h : tpm.Honest ctx (cs ++ cs')) : tpm.Honest ctx cs' :=
  fun x hx => h x (List.mem_append_right _ hx)

end SteadyTpm

/-- The nonce of a challenge, which is not empty; no bytes are no challenge. -/
def challenge (nonce : Bytes) : Option Bytes := if nonce = [] then none else some nonce

theorem challenge_eq_some {nonce n : Bytes} :
    challenge nonce = some n ↔ nonce ≠ [] ∧ nonce = n := by
  unfold challenge
  by_cases h : nonce = []
  · rw [if_pos h]
    exact ⟨fun h' => (by cases h'), fun h' => absurd h h'.1⟩
  · rw [if_neg h, Option.some.injEq]
    exact ⟨fun h' => ⟨h, h'⟩, fun h' => h'.2⟩

theorem getD_challenge (nonce : Bytes) : (challenge nonce).getD [] = nonce := by
  unfold challenge
  by_cases h : nonce = []
  · rw [if_pos h, h]
    rfl
  · rw [if_neg h]
    rfl

theorem isSome_challenge (nonce : Bytes) : (challenge nonce).isSome = decide (nonce ≠ []) := by
  unfold challenge
  by_cases h : nonce = []
  · rw [if_pos h, h]
    rfl
  · rw [if_neg h, decide_eq_true h]
    rfl

/-- What a verifier holds who has registered this TPM's key, accepts the build that is running, and
sent `nonce`, or none. -/
def SteadyTpm.trust (tpm : SteadyTpm C) (ctx : Ctx C) (deviceId : List.Vector UInt8 deviceIdLen)
    (nonce : Bytes) : StopTrust C where
  ak := tpm.ak
  deviceId := deviceId
  pcrSelection := encodePcrSelection ctx.pcrAlg ctx.pcrBitmap
  pcrComposite := C.sha256 tpm.pcrState
  nonce := challenge nonce

/-! ## A signed answer -/

theorem yields_certify {qualifying : List.Vector UInt8 32} {cs : List (Exchange Op Reply)}
    {out : Except String (Bytes × Bytes)} :
    (certify qualifying).run.Yields cs out ↔ cs = [⟨.certify qualifying, out⟩] := yields_perform

theorem yields_pcrRead {spec : String} {cs : List (Exchange Op Reply)}
    {out : Except String Bytes} :
    (pcrRead spec).run.Yields cs out ↔ cs = [⟨.pcrRead spec, out⟩] := yields_perform

theorem yields_quote {qualifying : List.Vector UInt8 32} {spec : String}
    {cs : List (Exchange Op Reply)} {out : Except String (Bytes × Bytes)} :
    (quote qualifying spec).run.Yields cs out ↔ cs = [⟨.quote qualifying spec, out⟩] :=
  yields_perform

/-- The calls of `sign` when they all succeed. -/
def signCalls (ctx : Ctx C) (rec : StopRecord) (nonce : Bytes) (cert : NvCertify) (pcrState : Bytes)
    (r : Receipt) : List (Exchange Op Reply) :=
  [⟨.certify (certifyQualifying C rec.bytes nonce), .ok (cert.attest, cert.sig)⟩,
    ⟨.pcrRead ctx.pcrSpec, .ok pcrState⟩,
    ⟨.quote (stopQuoteQualifying C r.msg) ctx.pcrSpec, .ok (r.quoteAttest, r.quoteSig)⟩]

/-- What the parts of a receipt are, as `sign` puts them together. -/
structure Assembled (ctx : Ctx C) (rec : StopRecord) (nonce : Bytes) (cert : NvCertify)
    (pcrState : Bytes) (r : Receipt) : Prop where
  record : rec.Legal
  checked : ∃ u, checkCounterCertify cert.attest (certifyQualifying C rec.bytes nonce)
    ctx.stopIndexName rec.stopEpoch = .ok u
  certLegal : cert.Legal
  bundle : buildBundle (receiptSections rec.bytes cert.bytes nonce) = .ok r.bundle
  msg : r.msg = buildCanonical C ctx.deviceId rec.stopEpoch
    (encodePcrSelection ctx.pcrAlg ctx.pcrBitmap) pcrState r.bundle
  receipt : r.Legal

/-- **What it takes for `sign` to return a receipt.** -/
theorem yields_sign_ok {ctx : Ctx C} {rec : StopRecord} {nonce receipt : Bytes}
    {cs : List (Exchange Op Reply)} :
    (sign ctx rec nonce).run.Yields cs (.ok receipt) ↔
      ∃ cert pcrState r, cs = signCalls ctx rec nonce cert pcrState r ∧
        Assembled ctx rec nonce cert pcrState r ∧ receipt = r.bytes := by
  refine ⟨fun h => ?_, fun ⟨cert, pcrState, r, hcs, hr, hreceipt⟩ => ?_⟩
  · obtain ⟨body, hbody, hcertify⟩ := yields_ofResult_bind.mp h
    obtain ⟨⟨attest, sig⟩, cs₁, rfl, hcheck⟩ := (yields_call_tryBind yields_certify).mp hcertify
    obtain ⟨u, hchecked, hsection⟩ := yields_ofResult_bind.mp hcheck
    obtain ⟨certBody, hcert, hbuild⟩ := yields_ofResult_bind.mp hsection
    obtain ⟨bundle, hbundle, hread⟩ := yields_ofResult_bind.mp hbuild
    obtain ⟨pcrState, cs₂, rfl, hlength⟩ := (yields_call_tryBind yields_pcrRead).mp hread
    obtain ⟨-, -, hquote⟩ := yields_ofResult_bind.mp hlength
    obtain ⟨⟨quoteAttest, quoteSig⟩, cs₃, rfl, hreceipt⟩ :=
      (yields_call_tryBind yields_quote).mp hquote
    obtain ⟨rfl, hencode⟩ := yields_ofResult.mp hreceipt
    obtain ⟨hrecord, rfl⟩ := StopRecord.encode_ok.mp hbody
    obtain ⟨hlegal, rfl⟩ := NvCertify.encode_ok.mp hcert
    obtain ⟨hr, rfl⟩ := Receipt.encode_ok.mp hencode
    exact ⟨⟨attest, sig⟩, pcrState, ⟨_, quoteAttest, quoteSig, bundle⟩, rfl,
      ⟨hrecord, ⟨u, hchecked⟩, hlegal, hbundle, rfl, hr⟩, rfl⟩
  · obtain ⟨u, hchecked⟩ := hr.checked
    obtain ⟨msg, quoteAttest, quoteSig, bundle⟩ := r
    have hmsg : msg = buildCanonical C ctx.deviceId rec.stopEpoch
      (encodePcrSelection ctx.pcrAlg ctx.pcrBitmap) pcrState bundle := hr.msg
    have hlength : msg.length = msgLen := hr.receipt.msg
    subst hcs hreceipt hmsg
    refine yields_ofResult_bind.mpr ⟨_, StopRecord.encode_ok.mpr ⟨hr.record, rfl⟩, ?_⟩
    refine (yields_call_tryBind yields_certify).mpr ⟨(cert.attest, cert.sig), _, rfl, ?_⟩
    refine yields_ofResult_bind.mpr ⟨u, hchecked, ?_⟩
    refine yields_ofResult_bind.mpr ⟨_, NvCertify.encode_ok.mpr ⟨hr.certLegal, rfl⟩, ?_⟩
    refine yields_ofResult_bind.mpr ⟨_, hr.bundle, ?_⟩
    refine (yields_call_tryBind yields_pcrRead).mpr ⟨pcrState, _, rfl, ?_⟩
    refine yields_ofResult_bind.mpr ⟨(), Except.ensure_eq_ok.mpr hlength, ?_⟩
    refine (yields_call_tryBind yields_quote).mpr ⟨(quoteAttest, quoteSig), _, rfl, ?_⟩
    exact yields_ofResult.mpr ⟨rfl, Receipt.encode_ok.mpr ⟨hr.receipt, rfl⟩⟩

/-- The sections the device writes are those the verifier looks for. -/
theorem receiptSections_eq (record : StopRecord) (cert : NvCertify) (nonce : Bytes) :
    receiptSections record.bytes cert.bytes nonce =
      stopSections record cert (challenge nonce) := by
  unfold receiptSections stopSections challenge
  by_cases h : nonce = []
  · rw [if_pos h, if_pos h]
    rfl
  · rw [if_neg h, if_neg h]
    rfl

/-- What makes a record of the service one the verifier accepts: the state agrees with the parity of
the counter, and only a status answer comes with a nonce. -/
structure Answerable (rec : StopRecord) (nonce : Bytes) : Prop where
  parity : rec.stopEpoch.toNat % 2 = 1 → rec.state ≠ .running
  nonce : nonce = [] ∨ (16 ≤ nonce.length ∧ nonce.length ≤ 64) ∧ rec.kind = .status

section Accepted

variable {ctx : Ctx C} {tpm : SteadyTpm C}

/-- **A receipt that `sign` returns passes**, and the finding is the record. -/
theorem sign_verifies {rec : StopRecord} {nonce receipt : Bytes} {cs : List (Exchange Op Reply)}
    (hhonest : tpm.Honest ctx cs) (hrec : Answerable rec nonce)
    (h : (sign ctx rec nonce).run.Yields cs (.ok receipt)) :
    ∃ clock, verifyStopReceipt receipt (tpm.trust ctx (padDeviceId ctx.deviceId) nonce) =
      .ok ⟨rec.kind, rec.state, rec.stopEpoch, rec.policyDigest, decide (nonce ≠ []), clock⟩ := by
  obtain ⟨cert, pcrState, r, rfl, hr, rfl⟩ := yields_sign_ok.mp h
  obtain ⟨u, hchecked⟩ := hr.checked
  obtain ⟨i, hi, hbound, -, hvalue⟩ := checkCounterCertify_ok.mp hchecked
  obtain ⟨hcertify, hrest⟩ := List.forall_mem_cons.mp hhonest
  obtain ⟨hread, hrest'⟩ := List.forall_mem_cons.mp hrest
  obtain ⟨hquote, -⟩ := List.forall_mem_cons.mp hrest'
  obtain ⟨i', firmwareVersion, hcertified⟩ := hcertify _ _ rfl
  obtain ⟨q, hquoted⟩ := hquote _ _ rfl rfl
  obtain rfl : pcrState = tpm.pcrState := hread _ rfl rfl
  obtain rfl : i' = i := by
    have hi' := parseNvCertifyInfo_ok.mpr ⟨hcertified.wire, firmwareVersion, hcertified.attest⟩
    exact Except.ok.inj (hi'.symm.trans hi)
  have hboot : sameBoot i'.clock q.clockInfo = true := by
    rw [sameBoot_iff, hcertified.boot.1, hcertified.boot.2, hquoted.boot.1, hquoted.boot.2]
    exact ⟨rfl, rfl⟩
  refine ⟨i'.clock, verifyStopReceipt_ok.mpr ⟨⟨r, q, rec, cert, i'⟩, ?_, rfl, ?_⟩⟩
  · exact {
      receipt := hr.receipt
      msg := hr.msg
      quote := Quote.parse_ok.mpr ⟨hquoted.wire, hquoted.attest⟩
      quoteSigned := hquoted.signed
      quoteBound := hquoted.extraData
      covers := ⟨⟨_, hquoted.banks, rfl⟩, hquoted.digest⟩
      bundle := ⟨_, parseBundle_of_buildBundle hr.bundle, by rw [receiptSections_eq]; rfl⟩
      record := hr.record
      challenge := by
        intro n hn
        obtain ⟨hne, rfl⟩ := challenge_eq_some.mp hn
        exact hrec.nonce.resolve_left hne
      cert := hr.certLegal
      certSigned := hcertified.signed
      info := hi
      certBound := by
        show i'.extraData = (certifyQualifying C rec.bytes ((challenge nonce).getD [])).toList
        rw [hbound, getD_challenge]
      index := hcertified.indexName
      value := hvalue
      parity := hrec.parity
      boot := hboot }
  · rw [← isSome_challenge]
    rfl

/-- A receipt that passes under what the verifier holds, with a finding that says what the service
found: the counter, and the gate at it. -/
def AcceptedAs (tpm : SteadyTpm C) (ctx : Ctx C) (deviceId : List.Vector UInt8 deviceIdLen)
    (nonce : Bytes) (kind : Kind) (g : Gate) (receipt : Bytes) : Prop :=
  ∃ f, verifyStopReceipt receipt (tpm.trust ctx deviceId nonce) = .ok f ∧
    f.stopEpoch = tpm.counter ∧ f.state = g.state ∧ f.kind = kind ∧
    f.policyDigest = ctx.policyDigest ∧ f.fresh = decide (nonce ≠ []) ∧
    (f.basis = .counter ↔ tpm.counter.toNat % 2 = 1)

theorem acceptedAs_of_sign {rec : StopRecord} {g : Gate} {nonce receipt : Bytes}
    {cs : List (Exchange Op Reply)} (hhonest : tpm.Honest ctx cs) (hrec : Answerable rec nonce)
    (hcounter : rec.stopEpoch = tpm.counter) (hstate : rec.state = g.state)
    (hpolicy : rec.policyDigest = ctx.policyDigest)
    (h : (sign ctx rec nonce).run.Yields cs (.ok receipt)) :
    AcceptedAs tpm ctx (padDeviceId ctx.deviceId) nonce rec.kind g receipt := by
  obtain ⟨clock, hok⟩ := sign_verifies hhonest hrec h
  refine ⟨_, hok, hcounter, hstate, rfl, hpolicy, rfl, ?_⟩
  rw [StopFinding.basis_eq_counter, ← hcounter]

/-- The gate is open at even values only. -/
theorem parity_of_gate {lift : Lift C} {counter : UInt64} {g : Gate} {cs : List (Exchange Op Reply)}
    (h : (gate lift counter).run.Yields cs (.ok g)) (hodd : counter.toNat % 2 = 1) :
    g.state ≠ .running := by
  intro hrunning
  cases g with
  | opened =>
    have heven := stateOf_eq_running.mp (yields_gate_opened.mp h).1
    omega
  | stopped => cases hrunning
  | unreleased why => cases hrunning

/-- The value that is read is the TPM's. -/
theorem counter_of_honest {counter : UInt64} {cs : List (Exchange Op Reply)}
    (h : tpm.Honest ctx (⟨.readCounter, .ok counter⟩ :: cs)) : counter = tpm.counter :=
  h _ List.mem_cons_self counter rfl

end Accepted

/-- **Every receipt the service returns passes at the verifier**, under the registered key, the
device's own id, the selection and the values of its PCRs, and the nonce it was asked with; and the
finding is what the service found. -/
theorem receipts_verify (ctx : Ctx C) (tpm : SteadyTpm C) {d : List.Vector UInt8 deviceIdLen}
    (hid : expectedDeviceId ctx.deviceId = .ok d) :
    (∀ nonce cs receipt, tpm.Honest ctx cs → (status ctx nonce).run.Yields cs (.ok receipt) →
      ∃ g gateCalls signCalls,
        cs = ⟨.readCounter, .ok tpm.counter⟩ :: (gateCalls ++ signCalls) ∧
        (gate ctx.lift tpm.counter).run.Yields gateCalls (.ok g) ∧
        AcceptedAs tpm ctx d nonce .status g receipt) ∧
    ∀ requestDigest cs receipt, tpm.Honest ctx cs →
      (admitCall ctx requestDigest).run.Yields cs (.ok (.refuse receipt)) →
      ∃ g gateCalls signCalls,
        cs = ⟨.readCounter, .ok tpm.counter⟩ :: (gateCalls ++ signCalls) ∧
        (gate ctx.lift tpm.counter).run.Yields gateCalls (.ok g) ∧
        AcceptedAs tpm ctx d [] (.refusal requestDigest) g receipt := by
  obtain ⟨-, rfl⟩ := expectedDeviceId_ok.mp hid
  refine ⟨fun nonce cs receipt hhonest h => ?_, fun requestDigest cs receipt hhonest h => ?_⟩
  · obtain ⟨u, hnonce, hread⟩ := yields_ofResult_bind.mp h
    obtain ⟨counter, rest, rfl, hgate⟩ := (yields_call_tryBind yields_readCounter).mp hread
    obtain rfl := counter_of_honest hhonest
    obtain ⟨gateCalls, calls, g, rfl, hg, hsign⟩ := yields_tryBind_ok.mp hgate
    have hsigned : tpm.Honest ctx calls := (hhonest.of_cons).append_right
    have hrec : Answerable (statusRecord ctx tpm.counter g) nonce := by
      refine ⟨parity_of_gate hg, ?_⟩
      by_cases hn : nonce = []
      · exact .inl hn
      · rw [if_neg hn] at hnonce
        exact .inr ⟨checkNonce_ok.mp hnonce, rfl⟩
    exact ⟨g, gateCalls, calls, rfl, hg, acceptedAs_of_sign hsigned hrec rfl rfl rfl hsign⟩
  · obtain ⟨counter, rest, rfl, hgate⟩ := (yields_call_tryBind yields_readCounter).mp h
    obtain rfl := counter_of_honest hhonest
    obtain ⟨gateCalls, calls, g, rfl, hg, hat⟩ := yields_tryBind_ok.mp hgate
    have hsigned : tpm.Honest ctx calls := (hhonest.of_cons).append_right
    have hrec : Answerable (refusalRecord ctx tpm.counter requestDigest) [] :=
      ⟨fun _ => State.noConfusion, .inl rfl⟩
    obtain ⟨hstopped, hsign⟩ := yields_admitAt_refuse.mp hat
    exact ⟨g, gateCalls, calls, rfl, hg,
      acceptedAs_of_sign hsigned hrec rfl hstopped.symm rfl hsign⟩

/-! The sample device, at an odd counter and without a release, asked by the first sample nonce. -/

namespace Sample

open Appraise.Sample

def ctx : Ctx crypto where
  lift := { deviceId := deviceId, operatorKey := [0x01], release := release.read }
  deviceId := deviceId
  pcrSpec := pcrSpec
  pcrAlg := tpmAlgSha256
  pcrBitmap := 0x03 ::ᵥ 0x01 ::ᵥ 0x00 ::ᵥ .nil
  policyDigest := record.policyDigest
  stopIndexName := (stopIndexName crypto).toList

def tpm : SteadyTpm crypto where
  ak := Sample.trust.ak
  counter := 1
  pcrState := pcrState
  resetCount := 1
  restartCount := 0

/-- The calls of the answer: the counter is odd, so no release is read. -/
def calls : List (Exchange Op Reply) :=
  ⟨.readCounter, .ok 1⟩ :: signCalls ctx record first.nonce first.cert pcrState first.receipt

theorem honest_calls : tpm.Honest ctx calls := by
  have hsig : ∀ {signed sig}, (vk, signed, sig) ∈ first.signatures → sig.head? = some 0x30 →
      crypto.Verifies vk signed sig := by
    intro signed sig hmem hder
    refine ⟨sig, ?_, decide_eq_true (List.mem_append_left _ hmem)⟩
    simp [Crypto.decodeSignature, crypto, Crypto.ofTable, hder]
  have hcertify : tpm.Certified (certifyQualifying crypto record.bytes first.nonce)
      first.cert.attest first.cert.sig first.info firmwareVersion :=
    ⟨hsig List.mem_cons_self (by decide), first.info_wire, rfl, rfl, rfl, rfl, rfl,
      ⟨rfl, rfl⟩⟩
  have hextra : ∀ msg, (stopQuoteQualifying hashes msg).toList =
      (stopQuoteQualifying crypto msg).toList := fun _ => rfl
  have hdigest : ∀ pcrs, (hashes.sha256 pcrs).toList = (crypto.sha256 pcrs).toList :=
    fun _ => rfl
  have hbanks : first.quote.pcrBanks.iter = [(ctx.pcrAlg, ctx.pcrBitmap.toList)] :=
    PcrBanks.iter_ofBanks (l := [(tpmAlgSha256, [0x03, 0x01, 0x00])]) rfl (by decide) rfl
  have hquote : tpm.Quoted ctx (stopQuoteQualifying crypto first.receipt.msg)
      first.receipt.quoteAttest first.receipt.quoteSig first.quote :=
    ⟨hsig (List.mem_cons_of_mem _ List.mem_cons_self) (by decide), first.quote_wire, rfl,
      hextra first.msg, hbanks, hdigest pcrState, ⟨rfl, rfl⟩⟩
  refine List.forall_mem_cons.mpr ⟨?_, List.forall_mem_cons.mpr ⟨?_, List.forall_mem_cons.mpr
    ⟨?_, List.forall_mem_cons.mpr ⟨?_, fun _ h => absurd h List.not_mem_nil⟩⟩⟩⟩
  · rintro v ⟨⟩
    rfl
  · rintro attest sig ⟨⟩
    exact ⟨_, _, hcertify⟩
  · rintro pcrs ⟨⟩ -
    rfl
  · rintro attest sig ⟨⟩ -
    exact ⟨_, hquote⟩

theorem yields_first : (status ctx first.nonce).run.Yields calls (.ok first.receipt.bytes) := by
  have hchecked : checkCounterCertify first.cert.attest
      (certifyQualifying crypto record.bytes first.nonce) ctx.stopIndexName 1 = .ok () :=
    checkCounterCertify_ok.mpr ⟨first.info,
      parseNvCertifyInfo_ok.mpr ⟨first.info_wire, firmwareVersion, rfl⟩, rfl, rfl, rfl, rfl⟩
  have hcert : first.cert.Legal := ⟨by decide +kernel, by decide +kernel⟩
  have hsections : ∀ s ∈ receiptSections record.bytes first.cert.bytes first.nonce, s.Legal := by
    decide +kernel
  have hbundle : buildBundle (receiptSections record.bytes first.cert.bytes first.nonce) =
      .ok first.bundle := buildBundle_ok.mpr ⟨hsections, rfl⟩
  have hreceipt : first.receipt.Legal :=
    ⟨by decide, by decide +kernel, by decide, by decide +kernel⟩
  have hgate : (gate ctx.lift 1).run.Yields [] (.ok .stopped) :=
    yields_tryPure.mpr ⟨rfl, rfl⟩
  have hsign : (sign ctx record first.nonce).run.Yields
      (signCalls ctx record first.nonce first.cert pcrState first.receipt)
      (.ok first.receipt.bytes) :=
    yields_sign_ok.mpr ⟨_, _, _, rfl,
      ⟨trivial, ⟨(), hchecked⟩, hcert, hbundle, rfl, hreceipt⟩, rfl⟩
  have hnonce : (if first.nonce = [] then .ok () else checkNonce first.nonce : Except String Unit) =
      .ok () := by decide
  exact yields_ofResult_bind.mpr ⟨(), hnonce, (yields_call_tryBind yields_readCounter).mpr
    ⟨1, _, rfl, yields_tryBind_ok.mpr ⟨[], _, .stopped, rfl, hgate, hsign⟩⟩⟩

end Sample

/-- The answer passes, with the finding that the counter, at 1, says stopped. -/
theorem first_accepted :
    ∃ g gateCalls signCalls,
      Sample.calls = ⟨.readCounter, .ok 1⟩ :: (gateCalls ++ signCalls) ∧
      (gate Sample.ctx.lift 1).run.Yields gateCalls (.ok g) ∧
      AcceptedAs Sample.tpm Sample.ctx (padDeviceId Appraise.Sample.deviceId)
        Appraise.Sample.first.nonce .status g Appraise.Sample.first.receipt.bytes :=
  (receipts_verify Sample.ctx Sample.tpm (expectedDeviceId_ok.mpr ⟨by decide, rfl⟩)).1 _ _ _
    Sample.honest_calls Sample.yields_first

end TactiqAttest.Service
