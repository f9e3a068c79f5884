import TactiqAttest.Appraise.StopReceipt
import TactiqAttest.Tpm.Runs

/-!
# What a stop receipt proves about the TPM, and what two of them do

The AK answers to any process on the device, so a receipt is only as good as what its checks force
on someone who may ask the TPM for any statement, at any time, over any data.  Here the receipts are
set against the runs of the TPM (`Tpm.Runs`), with one assumption: what verifies under the AK, and
starts as the TPM's own structures do, the TPM attested in the run.

* `verifyStopReceipt_sound`: behind a receipt that passes are a quote and a certify of the stop
  counter, made in one boot, that commit to one record and one nonce;
* `verifyStopInterval_sound`: behind two receipts that pass as an interval is a stretch of the run
  with no restart and no reset, all along which the counter is the same odd number.
-/

open BigEndian

namespace TactiqAttest.Appraise

open Envelope Stop Tpm Labelled

variable {C : Crypto} {t : StopTrust C} {f : StopFinding} {s s' : Tpm.State}
  {es : List (Event Tpm.State Action)}

/-! ## One receipt -/

/-- The stop record a finding was read from. -/
def StopFinding.record (f : StopFinding) : StopRecord :=
  ⟨f.kind, f.state, f.stopEpoch, f.policyDigest⟩

/-- The two statements a finding rests on: `quoted` made the quote `q`, and `certified` the certify
`i` of the stop counter. -/
structure Backs (C : Crypto) (t : StopTrust C) (f : StopFinding)
    (quoted certified : Event Tpm.State Action) (q : Quote) (i : NvCertifyInfo) : Prop where
  isQuote : ∃ wire, quoted.label = .attest (.quote q wire)
  certifies : CertifiesCounter C certified i f.stopEpoch
  boot : quoted.pre.boot = certified.pre.boot
  /-- The quote is of the reference PCRs, and their values were the reference build's. -/
  pcrs : ∃ bank : Bank, q.pcrBanks.iter = [bank] ∧ be bank.1 ++ bank.2 = t.pcrSelection.toList ∧
    q.pcrDigest = t.pcrComposite.toList ∧ quoted.pre.pcrDigest [bank] = t.pcrComposite.toList
  /-- The counter was at the reported value, at the reported time. -/
  counter : i.clock = f.clock ∧ certified.pre.clockInfo = f.clock ∧
    certified.pre.counter = some f.stopEpoch
  /-- The certify commits to the record and the nonce. -/
  record : i.extraData = (certifyQualifying C f.record.bytes (t.nonce.getD [])).toList
  /-- The quote commits to the device, to the counter value, and to a bundle of that record, that
  certify and that nonce. -/
  message : ∃ bundle ss cert firmwareVersion,
    q.extraData = (stopQuoteQualifying C (t.message f.stopEpoch bundle).bytes).toList ∧
    parseBundle bundle = .ok ss ∧ ss.Perm (stopSections f.record cert t.nonce) ∧
    cert.attest = i.bytes firmwareVersion

namespace Reading

variable {p : Reading}

/-- The quote of a genuine receipt was made in the run. -/
theorem Genuine.exists_quoted (h : p.Genuine t) (hsigned : OnlyAttests C t.ak.vk es) :
    ∃ e ∈ es, ∃ wire, e.label = .attest (.quote p.quote wire) :=
  hsigned.exists_quote h.quoteSigned h.quote

/-- The certify of a genuine receipt was made in the run. -/
theorem Genuine.exists_certified (h : p.Genuine t) (hsigned : OnlyAttests C t.ak.vk es) :
    ∃ e ∈ es, CertifiesCounter C e p.info p.record.stopEpoch := by
  obtain ⟨e, he, hlabel⟩ := hsigned.exists_nv h.certSigned h.info
  exact ⟨e, he, hlabel, h.index, h.value⟩

/-- The statements behind a genuine receipt. -/
theorem Genuine.backs (h : p.Genuine t) (hrun : Run (Tpm.Step C) s es s')
    (hsigned : OnlyAttests C t.ak.vk es) :
    ∃ quoted ∈ es, ∃ certified ∈ es,
      Backs C t (p.finding t.nonce) quoted certified p.quote p.info := by
  obtain ⟨quoted, hquoted, wire, hlabel⟩ := h.exists_quoted hsigned
  obtain ⟨certified, hcertified, hcertifies⟩ := h.exists_certified hsigned
  obtain ⟨-, hquoteClock, hpcrs⟩ := reports_of_attest hrun hquoted hlabel
  obtain ⟨-, hcertClock, hcounter⟩ := counter_of_certifies hrun hcertified hcertifies
  obtain ⟨⟨bank, hbanks, hselection⟩, hdigest⟩ := h.covers
  obtain ⟨ss, hss, hsections⟩ := h.bundle
  obtain ⟨-, firmwareVersion, hattest⟩ := parseNvCertifyInfo_ok.mp h.info
  have hboot : quoted.pre.boot = certified.pre.boot := by
    refine (State.boot_eq_iff.mpr ?_).symm
    rw [hcertClock, ← hquoteClock]
    exact h.boot
  have hvalues : quoted.pre.pcrDigest [bank] = t.pcrComposite.toList := by
    rw [← hbanks, ← hpcrs]
    exact hdigest
  have hmessage : p.quote.extraData = (stopQuoteQualifying C
      (t.message p.record.stopEpoch p.receipt.bundle).bytes).toList := by
    rw [h.quoteBound, h.msg]
  exact ⟨quoted, hquoted, certified, hcertified, ⟨wire, hlabel⟩, hcertifies, hboot,
    ⟨bank, hbanks, hselection, hdigest, hvalues⟩, ⟨rfl, hcertClock, hcounter⟩, h.certBound,
    p.receipt.bundle, ss, p.cert, firmwareVersion, hmessage, hss, hsections, hattest⟩

end Reading

/-- **A receipt that passes rests on two statements of the TPM**, whoever asked for them and for
what other statements besides: a quote of the reference build and a certify of the stop counter, of
one boot, committed to one record, one nonce and each other. -/
theorem verifyStopReceipt_sound {receipt : Bytes} (hrun : Run (Tpm.Step C) s es s')
    (hsigned : OnlyAttests C t.ak.vk es) (h : verifyStopReceipt receipt t = .ok f) :
    ∃ quoted ∈ es, ∃ certified ∈ es, ∃ q i, Backs C t f quoted certified q i := by
  obtain ⟨p, hp, -, rfl⟩ := verifyStopReceipt_ok.mp h
  obtain ⟨quoted, hquoted, certified, hcertified, hbacks⟩ := hp.backs hrun hsigned
  exact ⟨quoted, hquoted, certified, hcertified, p.quote, p.info, hbacks⟩

/-! The run of the TPM that made the two sample answers: each is a certify and, a little later, a
quote. -/

namespace Sample

def stateAt (clock : UInt64) : Tpm.State where
  clockInfo := ⟨clock, 1, 0, true⟩
  counter := some 1
  high := 1
  pcrDigest := fun _ => (hashes.sha256 pcrState).toList
  le_high := by
    intro v hv
    rw [← Option.some.inj hv]
    decide

namespace Answer

variable (a : Answer)

/-- What the TPM did for the answer. -/
def events : List (Event Tpm.State Action) :=
  [⟨stateAt a.certClock, .attest (.nv a.info firmwareVersion a.info_wire), stateAt a.certClock⟩,
    ⟨stateAt a.certClock, .tick, stateAt a.quoteClock⟩,
    ⟨stateAt a.quoteClock, .attest (.quote a.quote a.quote_wire), stateAt a.quoteClock⟩]

theorem run_events (h : a.certClock ≤ a.quoteClock) :
    Run (Tpm.Step crypto) (stateAt a.certClock) a.events (stateAt a.quoteClock) := by
  have hcertify : Reports crypto (stateAt a.certClock) (.nv a.info firmwareVersion a.info_wire) :=
    have hcontents : be (1 : UInt64) = ((be (1 : UInt64)).drop 0).take 8 := by decide
    ⟨rfl, fun _ => ⟨1, rfl, Nat.le_refl 8, hcontents⟩⟩
  have hquote : Reports crypto (stateAt a.quoteClock) (.quote a.quote a.quote_wire) := ⟨rfl, rfl⟩
  exact .cons (.attest hcertify) (.cons (.tick rfl h rfl rfl rfl) (.cons (.attest hquote) (.nil _)))

/-- The two signatures of the answer are over what the TPM attested. -/
theorem exists_event {signed sig : Bytes} (h : (vk, signed, sig) ∈ a.signatures) :
    ∃ e ∈ a.events, ∃ attested, e.label = .attest attested ∧ attested.bytes = signed := by
  rcases List.mem_cons.mp h with h | h
  · obtain ⟨rfl, -⟩ := Prod.mk.inj (Prod.mk.inj h).2
    exact ⟨_, List.mem_cons_self, _, rfl, rfl⟩
  · obtain ⟨rfl, -⟩ := Prod.mk.inj (Prod.mk.inj (List.mem_singleton.mp h)).2
    exact ⟨_, List.mem_cons_of_mem _ (List.mem_cons_of_mem _ List.mem_cons_self), _, rfl, rfl⟩

end Answer

def events : List (Event Tpm.State Action) :=
  first.events ++ ⟨stateAt first.quoteClock, .tick, stateAt second.certClock⟩ :: second.events

theorem run_events :
    Run (Tpm.Step crypto) (stateAt first.certClock) events (stateAt second.quoteClock) :=
  Run.append_iff.mpr ⟨_, first.run_events (by decide),
    .cons (.tick rfl (by decide) rfl rfl rfl) (second.run_events (by decide))⟩

theorem onlyAttests_events : OnlyAttests crypto vk events := by
  intro signed sig hsig _
  obtain ⟨s, -, hverify⟩ := hsig
  rcases List.mem_append.mp (of_decide_eq_true hverify) with h | h
  · obtain ⟨e, he, hattested⟩ := first.exists_event h
    exact ⟨e, List.mem_append_left _ he, hattested⟩
  · obtain ⟨e, he, hattested⟩ := second.exists_event h
    exact ⟨e, List.mem_append_right _ (List.mem_cons_of_mem _ he), hattested⟩

/-- A signature of the table verifies. -/
theorem verifies_of_mem {signed sig : Bytes}
    (hmem : (vk, signed, sig) ∈ first.signatures ++ second.signatures)
    (hder : sig.head? = some 0x30) : crypto.Verifies vk signed sig := by
  refine ⟨sig, ?_, decide_eq_true hmem⟩
  simp [Crypto.decodeSignature, crypto, Crypto.ofTable, hder]

/-- The parts of an answer. -/
def Answer.reading (a : Answer) : Reading := ⟨a.receipt, a.quote, record, a.cert, a.info⟩

/-- An answer whose signatures are in the table passes. -/
theorem Answer.verifies (a : Answer) (hsigs : a.signatures ⊆ first.signatures ++ second.signatures)
    (hcertDer : a.certSig.head? = some 0x30) (hquoteDer : a.quoteSig.head? = some 0x30)
    (hnonce : 16 ≤ a.nonce.length ∧ a.nonce.length ≤ 64) (hreceipt : a.receipt.Legal)
    (hcert : a.cert.Legal)
    (hsections : ∀ s ∈ stopSections record a.cert (some a.nonce), s.Legal) :
    verifyStopReceipt a.receipt.bytes { trust with nonce := some a.nonce } =
      .ok ⟨.status, .stopped, 1, record.policyDigest, true, ⟨a.certClock, 1, 0, true⟩⟩ := by
  let t : StopTrust crypto := { trust with nonce := some a.nonce }
  have hbuilt : buildBundle (stopSections record a.cert (some a.nonce)) = .ok a.bundle :=
    buildBundle_ok.mpr ⟨hsections, rfl⟩
  have hextra : ∀ msg, (stopQuoteQualifying hashes msg).toList =
      (stopQuoteQualifying crypto msg).toList := fun _ => rfl
  have hbound : ∀ body nonce, (certifyQualifying hashes body nonce).toList =
      (certifyQualifying crypto body nonce).toList := fun _ _ => rfl
  have hdigest : ∀ pcrs, (hashes.sha256 pcrs).toList = (crypto.sha256 pcrs).toList :=
    fun _ => rfl
  have hbanks : a.quote.pcrBanks.iter = [(tpmAlgSha256, [0x03, 0x01, 0x00])] :=
    PcrBanks.iter_ofBanks (l := [(tpmAlgSha256, [0x03, 0x01, 0x00])]) rfl (by decide) rfl
  have hgenuine : a.reading.Genuine t :=
    { receipt := hreceipt
      msg := rfl
      quote := Quote.parse_ok.mpr ⟨a.quote_wire, rfl⟩
      quoteSigned := verifies_of_mem (hsigs (List.mem_cons_of_mem _ List.mem_cons_self)) hquoteDer
      quoteBound := hextra a.msg
      covers := ⟨⟨_, hbanks, rfl⟩, hdigest pcrState⟩
      bundle := ⟨_, parseBundle_of_buildBundle hbuilt, List.Perm.refl _⟩
      record := trivial
      challenge := fun n hn => ⟨Option.some.inj hn ▸ hnonce, rfl⟩
      cert := hcert
      certSigned := verifies_of_mem (hsigs List.mem_cons_self) hcertDer
      info := parseNvCertifyInfo_ok.mpr ⟨a.info_wire, firmwareVersion, rfl⟩
      certBound := hbound record.bytes a.nonce
      index := rfl
      value := ⟨rfl, rfl⟩
      parity := fun _ h => (by cases h)
      boot := rfl }
  exact verifyStopReceipt_ok.mpr ⟨a.reading, hgenuine, rfl, rfl⟩

theorem first_verifies :
    verifyStopReceipt first.receipt.bytes { trust with nonce := some first.nonce } =
      .ok ⟨.status, .stopped, 1, record.policyDigest, true, ⟨717, 1, 0, true⟩⟩ :=
  first.verifies (List.subset_append_left _ _) (by decide) (by decide) (by decide)
    ⟨by decide +kernel, by decide +kernel, by decide +kernel, by decide +kernel⟩
    ⟨by decide +kernel, by decide⟩ (by decide +kernel)

theorem second_verifies :
    verifyStopReceipt second.receipt.bytes { trust with nonce := some second.nonce } =
      .ok ⟨.status, .stopped, 1, record.policyDigest, true, ⟨2780, 1, 0, true⟩⟩ :=
  second.verifies (List.subset_append_right _ _) (by decide) (by decide) (by decide)
    ⟨by decide +kernel, by decide +kernel, by decide, by decide +kernel⟩
    ⟨by decide +kernel, by decide⟩ (by decide +kernel)

end Sample

/-- The first answer, against the run that made it. -/
theorem first_backed :
    ∃ quoted ∈ Sample.events, ∃ certified ∈ Sample.events, ∃ q i,
      Backs Sample.crypto { Sample.trust with nonce := some Sample.first.nonce }
        ⟨.status, .stopped, 1, Sample.record.policyDigest, true, ⟨717, 1, 0, true⟩⟩
        quoted certified q i :=
  verifyStopReceipt_sound Sample.run_events Sample.onlyAttests_events Sample.first_verifies

/-! ## Two receipts -/

/-- A stop that held between two receipts. -/
structure StopInterval where
  /-- The odd stop counter, equal at both ends. -/
  stopEpoch : UInt64
  /-- The TPM's clock when it read the counter, at each end. -/
  from' : TpmClock
  to' : TpmClock
  deriving DecidableEq

/-- `StopInterval::held_ms`.  The subtraction is on 64 bits, and wraps if the ends are not in
order. -/
def StopInterval.heldMs (iv : StopInterval) : UInt64 := iv.to'.clock - iv.from'.clock

/-- One of the two receipts, against its own nonce. -/
def receiptAt (t : StopTrust C) (r n : Bytes) (which : String) : Except String StopFinding :=
  (verifyStopReceipt r { t with nonce := some n }).mapError fun e => s!"{which} receipt: {e}"

/-- One of the two findings has to be a stop the TPM states. -/
def checkStated (f : StopFinding) (which : String) : Except String Unit :=
  Except.ensure (f.basis = .counter)
    (s!"interval: the {which} receipt is not a stop the TPM states " ++
      s!"(counter {f.stopEpoch.toNat} is even)")

/-- `verify_stop_interval`. -/
def verifyStopInterval (first firstNonce second secondNonce : Bytes) (t : StopTrust C) :
    Except String StopInterval := do
  Except.ensure (t.nonce = none)
    "interval: give the nonces to verify_stop_interval, not in the trust"
  Except.ensure (firstNonce ≠ secondNonce) "interval: both receipts answer the same challenge"
  let a ← receiptAt t first firstNonce "first"
  let b ← receiptAt t second secondNonce "second"
  checkStated a "first"
  checkStated b "second"
  Except.ensure (a.stopEpoch = b.stopEpoch)
    (s!"interval: the stop counter moved from {a.stopEpoch.toNat} to {b.stopEpoch.toNat}: " ++
      "the stop was lifted or tripped again in between")
  Except.ensure (a.clock.resetCount = b.clock.resetCount)
    (s!"interval: the TPM was reset in between (resetCount {a.clock.resetCount.toNat} then " ++
      s!"{b.clock.resetCount.toNat}): a reboot, after which any build may have run")
  Except.ensure (a.clock.restartCount = b.clock.restartCount)
    (s!"interval: the TPM was restarted in between (restartCount {a.clock.restartCount.toNat} " ++
      s!"then {b.clock.restartCount.toNat})")
  Except.ensure (a.clock.clock < b.clock.clock)
    (s!"interval: the second receipt is not later by the TPM clock ({a.clock.clock.toNat} then " ++
      s!"{b.clock.clock.toNat} ms)")
  return { stopEpoch := a.stopEpoch, from' := a.clock, to' := b.clock }

theorem verifyStopInterval_ok {first firstNonce second secondNonce : Bytes} {iv : StopInterval} :
    verifyStopInterval first firstNonce second secondNonce t = .ok iv ↔
      t.nonce = none ∧ firstNonce ≠ secondNonce ∧ ∃ a b,
        verifyStopReceipt first { t with nonce := some firstNonce } = .ok a ∧
        verifyStopReceipt second { t with nonce := some secondNonce } = .ok b ∧
        a.stopEpoch.toNat % 2 = 1 ∧ a.stopEpoch = b.stopEpoch ∧
        sameBoot a.clock b.clock = true ∧ a.clock.clock < b.clock.clock ∧
        iv = ⟨a.stopEpoch, a.clock, b.clock⟩ := by
  unfold verifyStopInterval receiptAt checkStated
  simp only [Except.bind_eq_ok, Except.ensure_eq_ok, Except.mapError_eq_ok, Except.pure_eq_ok,
    StopFinding.basis_eq_counter, exists_const, sameBoot_iff]
  constructor
  · rintro ⟨hnone, hne, a, ha, b, hb, hodd, -, hepoch, hreset, hrestart, hclock, rfl⟩
    exact ⟨hnone, hne, a, b, ha, hb, hodd, hepoch, ⟨hreset, hrestart⟩, hclock, rfl⟩
  · rintro ⟨hnone, hne, a, b, ha, hb, hodd, hepoch, ⟨hreset, hrestart⟩, hclock, rfl⟩
    exact ⟨hnone, hne, a, ha, b, hb, hodd, hepoch ▸ hodd, hepoch, hreset, hrestart, hclock, rfl⟩

/-- **Two receipts that pass as an interval prove the stop held between them.**  In every run of the
TPM that made their signatures, between the two reads of the counter there was no restart and no
reset, the counter was the same odd number in every state, and the clock went forward by
`heldMs`. -/
theorem verifyStopInterval_sound {first firstNonce second secondNonce : Bytes} {iv : StopInterval}
    (hrun : Run (Tpm.Step C) s es s') (hsigned : OnlyAttests C t.ak.vk es)
    (h : verifyStopInterval first firstNonce second secondNonce t = .ok iv) :
    ∃ e₁ between e₂ i₁ i₂, Before es e₁ between e₂ ∧
      (CertifiesCounter C e₁ i₁ iv.stopEpoch ∧ i₁.clock = iv.from') ∧
      (CertifiesCounter C e₂ i₂ iv.stopEpoch ∧ i₂.clock = iv.to') ∧
      (∀ e ∈ between, e.label ≠ .restart ∧ e.label ≠ .reset) ∧
      (∀ r ∈ statesFrom e₁ between, r.counter = some iv.stopEpoch) ∧
      iv.stopEpoch.toNat % 2 = 1 ∧ iv.from'.clock ≤ iv.to'.clock ∧ 0 < iv.heldMs := by
  obtain ⟨-, -, a, b, ha, hb, hodd, hepoch, hboot, hclock, rfl⟩ := verifyStopInterval_ok.mp h
  obtain ⟨p, hp, -, rfl⟩ := verifyStopReceipt_ok.mp ha
  obtain ⟨q, hq, -, rfl⟩ := verifyStopReceipt_ok.mp hb
  obtain ⟨e₁, he₁, hc₁⟩ := hp.exists_certified hsigned
  obtain ⟨e₂, he₂, hc₂⟩ := hq.exists_certified hsigned
  have hepoch : p.record.stopEpoch = q.record.stopEpoch := hepoch
  rw [← hepoch] at hc₂
  obtain ⟨between, hbefore, hquiet, hheld⟩ := held_between hrun he₁ he₂ hc₁ hc₂ hboot hclock
  have hclock : p.info.clock.clock < q.info.clock.clock := hclock
  have hpositive : 0 < q.info.clock.clock - p.info.clock.clock := by
    rw [UInt64.lt_iff_toNat_lt] at hclock ⊢
    rw [UInt64.toNat_sub_of_le _ _ (UInt64.le_iff_toNat_le.mpr hclock.le)]
    exact Nat.sub_pos_of_lt hclock
  exact ⟨e₁, between, e₂, p.info, q.info, hbefore, ⟨hc₁, rfl⟩, ⟨hc₂, rfl⟩, hquiet, hheld, hodd,
    UInt64.le_of_lt hclock, hpositive⟩

/-- The two answers: the stop held for 2063 milliseconds of TPM clock. -/
theorem sample_held :
    ∃ e₁ between e₂ i₁ i₂, Before Sample.events e₁ between e₂ ∧
      (CertifiesCounter Sample.crypto e₁ i₁ 1 ∧ i₁.clock = ⟨717, 1, 0, true⟩) ∧
      (CertifiesCounter Sample.crypto e₂ i₂ 1 ∧ i₂.clock = ⟨2780, 1, 0, true⟩) ∧
      (∀ e ∈ between, e.label ≠ .restart ∧ e.label ≠ .reset) ∧
      (∀ r ∈ statesFrom e₁ between, r.counter = some 1) ∧
      (1 : UInt64).toNat % 2 = 1 ∧ (717 : UInt64) ≤ 2780 ∧
      0 < StopInterval.heldMs ⟨1, ⟨717, 1, 0, true⟩, ⟨2780, 1, 0, true⟩⟩ := by
  have hok : verifyStopInterval Sample.first.receipt.bytes Sample.first.nonce
      Sample.second.receipt.bytes Sample.second.nonce Sample.trust =
        .ok ⟨1, ⟨717, 1, 0, true⟩, ⟨2780, 1, 0, true⟩⟩ :=
    verifyStopInterval_ok.mpr ⟨rfl, by decide, _, _, Sample.first_verifies, Sample.second_verifies,
      by decide, rfl, by decide, by decide, rfl⟩
  exact verifyStopInterval_sound Sample.run_events Sample.onlyAttests_events hok

end TactiqAttest.Appraise
