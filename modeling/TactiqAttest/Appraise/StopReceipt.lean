import TactiqAttest.Appraise.Gate1
import TactiqAttest.Envelope.Bundle
import TactiqAttest.Stop.NvCertifyInfo
import TactiqAttest.Stop.Receipt

/-!
# Stop receipts, away from the device

`verify_stop_receipt`, from `attest-appraise`: whether an agent is stopped, and who says so, from a
receipt and the registered key alone.  A receipt carries two statements of the TPM, a quote and a
certify of the stop counter, in four nested formats.  The code is eleven checks in order, each with
its own error.

What the checks come to is `Reading.Genuine`: the parts the receipt is made of, and what holds
between them.  Every digest in it is a digest of *these* parts, so the two statements cannot be
about different ones.

* `Slots.foldlM_place_ok`: the loop over the sections accepts exactly the arrangements of one
  record, one certify and at most one nonce;
* `verifyStopReceipt_ok`: a receipt passes exactly if it has a genuine reading, and the finding is
  read off it.
-/

open BigEndian

namespace TactiqAttest.Appraise

open Envelope Stop

variable {C : Crypto}

/-! ## What the verifier holds, and what it gets -/

/-- What the verifier holds before it looks at the receipt. -/
structure StopTrust (C : Crypto) where
  /-- The device's attestation key. -/
  ak : AkKey C
  /-- The device id, padded with zeros. -/
  deviceId : List.Vector UInt8 deviceIdLen
  /-- The PCR selection the stop service quotes. -/
  pcrSelection : List.Vector UInt8 pcrSelectionLen
  /-- SHA-256 of the reference values of those PCRs. -/
  pcrComposite : List.Vector UInt8 32
  /-- The nonce the verifier sent, if it sent one. -/
  nonce : Option Bytes

/-- A receipt that passed. -/
structure StopFinding where
  kind : Kind
  /-- The service's admission state when it answered. -/
  state : State
  /-- The stop counter, as the TPM certified it. -/
  stopEpoch : UInt64
  policyDigest : List.Vector UInt8 32
  /-- Bound to the verifier's nonce. -/
  fresh : Bool
  /-- When the TPM read the stop counter. -/
  clock : TpmClock
  deriving DecidableEq

/-- Who says the agent is stopped, if anyone. -/
inductive StopBasis
  /-- Odd counter: the TPM's own value says stopped. -/
  | counter
  /-- Even counter, no valid operator release for it: the service says stopped. -/
  | noRelease
  /-- Even counter, and the service found the operator's release. -/
  | running
  deriving DecidableEq

/-- `StopFinding::basis`. -/
def StopFinding.basis (f : StopFinding) : StopBasis :=
  if f.stopEpoch.toNat % 2 = 1 then .counter
  else match f.state with
    | .stopped => .noRelease
    | .running => .running

theorem StopFinding.basis_eq_counter {f : StopFinding} :
    f.basis = .counter ↔ f.stopEpoch.toNat % 2 = 1 := by
  unfold basis
  by_cases hodd : f.stopEpoch.toNat % 2 = 1
  · rw [if_pos hodd]
    exact ⟨fun _ => hodd, fun _ => rfl⟩
  · rw [if_neg hodd]
    refine ⟨fun h => ?_, fun h => absurd h hodd⟩
    cases hstate : f.state <;> rw [hstate] at h <;> cases h

/-- `verify`: decode the signature and check it under the key. -/
def verify (vk : C.VerifyingKey) (signed sig : Bytes) (what : String) : Except String Unit := do
  let s ← (C.decodeSignature sig).mapError fun e => s!"{what}: malformed signature: {e}"
  Except.ensure (C.verify vk signed s = true) s!"{what}: signature does not verify under the AK"

theorem verify_ok {vk : C.VerifyingKey} {signed sig : Bytes} {what : String} {u : Unit} :
    verify vk signed sig what = .ok u ↔ C.Verifies vk signed sig := by
  simp only [verify, Except.bind_eq_ok, Except.mapError_eq_ok, Except.ensure_eq_ok]
  exact Iff.rfl

/-! ## The sections of a bundle -/

/-- The places a section of a stop receipt can have. -/
inductive Slot
  | stopState
  | tpmNvCertify
  | verifierNonce
  deriving DecidableEq

namespace Slot

def tag : Slot → UInt16
  | stopState => tagStopState
  | tpmNvCertify => tagTpmNvCertify
  | verifierNonce => tagVerifierNonce

/-- The place of a section with this tag, if it has one. -/
def ofTag (tag : UInt16) : Option Slot :=
  if tag = tagStopState then some stopState
  else if tag = tagTpmNvCertify then some tpmNvCertify
  else if tag = tagVerifierNonce then some verifierNonce
  else none

/-- The places, in the order the device fills them. -/
def all : List Slot := [stopState, tpmNvCertify, verifierNonce]

theorem mem_all (k : Slot) : k ∈ all := by
  cases k <;> decide

theorem ofTag_eq_some {tag : UInt16} {k : Slot} : ofTag tag = some k ↔ k.tag = tag := by
  constructor
  · intro h
    unfold ofTag at h
    split_ifs at h with h₁ h₂ h₃
    · obtain rfl := Option.some.inj h
      exact h₁.symm
    · obtain rfl := Option.some.inj h
      exact h₂.symm
    · obtain rfl := Option.some.inj h
      exact h₃.symm
  · rintro rfl
    cases k <;> decide

theorem tag_injective : Function.Injective tag := by
  intro k k' h
  have hk := ofTag_eq_some.mpr h
  have hk' : ofTag k'.tag = some k' := ofTag_eq_some.mpr rfl
  exact Option.some.inj (hk.symm.trans hk')

end Slot

/-- What the loop over the sections has found so far: `rec`, `cert` and `nonce` of the code. -/
abbrev Slots := Slot → Option Bytes

namespace Slots

/-- Nothing found. -/
def empty : Slots := fun _ => none

/-- The body of the loop. -/
def place (slots : Slots) (s : Section) : Except String Slots :=
  match Slot.ofTag s.tag with
  | none => .error s!"bundle: section 0x{Text.hex 4 s.tag.toNat} has no place in a stop receipt"
  | some k => do
    Except.ensure (slots k = none) s!"bundle: section 0x{Text.hex 4 s.tag.toNat} twice"
    return Function.update slots k (some s.body)

/-- What has been found, as sections. -/
def sections (slots : Slots) : List Section :=
  Slot.all.filterMap fun k => (slots k).map (⟨k.tag, ·⟩)

theorem place_ok {slots slots' : Slots} {s : Section} :
    slots.place s = .ok slots' ↔
      ∃ k : Slot, k.tag = s.tag ∧ slots k = none ∧
        slots' = Function.update slots k (some s.body) := by
  unfold place
  rcases hk : Slot.ofTag s.tag with _ | k
  · refine ⟨fun h => (by cases h), ?_⟩
    rintro ⟨k, htag, -⟩
    rw [Slot.ofTag_eq_some.mpr htag] at hk
    cases hk
  · have htag := Slot.ofTag_eq_some.mp hk
    simp only [Except.bind_eq_ok, Except.ensure_eq_ok, Except.pure_eq_ok]
    constructor
    · rintro ⟨_, hnone, hs⟩
      exact ⟨k, htag, hnone, hs.symm⟩
    · rintro ⟨k', htag', hnone, hs⟩
      obtain rfl : k' = k := Slot.tag_injective (htag'.trans htag.symm)
      exact ⟨(), hnone, hs.symm⟩

theorem mem_sections {slots : Slots} {s : Section} :
    s ∈ slots.sections ↔ ∃ k : Slot, k.tag = s.tag ∧ slots k = some s.body := by
  obtain ⟨tag, body⟩ := s
  rw [sections, List.mem_filterMap]
  refine exists_congr fun k => ?_
  rw [Option.map_eq_some_iff]
  refine ⟨fun ⟨_, b, hb, hs⟩ => ?_, fun ⟨htag, hbody⟩ => ⟨k.mem_all, body, hbody, by rw [htag]⟩⟩
  obtain ⟨rfl, rfl⟩ := Section.mk.inj hs
  exact ⟨rfl, hb⟩

theorem mk_mem_sections {slots : Slots} {k : Slot} {body : Bytes} :
    ⟨k.tag, body⟩ ∈ slots.sections ↔ slots k = some body := by
  refine mem_sections.trans ⟨fun ⟨k', htag, hbody⟩ => ?_, fun hbody => ⟨k, rfl, hbody⟩⟩
  obtain rfl := Slot.tag_injective htag
  exact hbody

/-- No two sections in the places have one tag. -/
theorem nodup_tags (slots : Slots) : (slots.sections.map Section.tag).Nodup := by
  rw [sections, List.map_filterMap]
  refine List.Nodup.filterMap (fun k k' tag hk hk' => ?_) (by decide)
  simp only [Option.map_map, Option.mem_def, Option.map_eq_some_iff] at hk hk'
  obtain ⟨_, -, rfl⟩ := hk
  obtain ⟨_, -, htag⟩ := hk'
  exact (Slot.tag_injective htag).symm

/-- The sections determine the places. -/
theorem eq_of_perm {slots slots' : Slots} (h : slots.sections.Perm slots'.sections) :
    slots = slots' := by
  funext k
  refine Option.ext fun body => ?_
  rw [← mk_mem_sections, ← mk_mem_sections, h.mem_iff]

/-- Filling an empty place adds one section. -/
theorem sections_update {slots : Slots} {k : Slot} (body : Bytes) (h : slots k = none) :
    (sections (Function.update slots k (some body))).Perm (⟨k.tag, body⟩ :: slots.sections) := by
  have hnew : ⟨k.tag, body⟩ ∉ slots.sections := by
    rw [mk_mem_sections, h]
    exact (Option.some_ne_none body).symm
  have hnodup : ∀ slots : Slots, slots.sections.Nodup := fun slots => slots.nodup_tags.of_map
  rw [List.perm_ext_iff_of_nodup (hnodup _) (List.nodup_cons.mpr ⟨hnew, hnodup _⟩)]
  intro s
  rw [List.mem_cons, mem_sections, mem_sections]
  refine ⟨fun ⟨k', htag, hbody⟩ => ?_, ?_⟩
  · by_cases hk : k' = k
    · rw [hk, Function.update_self] at hbody
      exact .inl (Section.ext (htag ▸ congrArg Slot.tag hk) (Option.some.inj hbody).symm)
    · rw [Function.update_of_ne hk] at hbody
      exact .inr ⟨k', htag, hbody⟩
  · rintro (rfl | ⟨k', htag, hbody⟩)
    · exact ⟨k, rfl, Function.update_self ..⟩
    · refine ⟨k', htag, ?_⟩
      have hk : k' ≠ k := fun hk => by
        rw [hk, h] at hbody
        cases hbody
      rwa [Function.update_of_ne hk]

/-- **What the loop accepts**: it fills the places with the sections, in whatever order they
come. -/
theorem foldlM_place_ok {ss : List Section} {slots slots' : Slots} :
    ss.foldlM place slots = .ok slots' ↔ (slots.sections ++ ss).Perm slots'.sections := by
  induction ss generalizing slots with
  | nil =>
    rw [List.foldlM_nil, Except.pure_eq_ok, List.append_nil]
    refine ⟨fun h => ?_, eq_of_perm⟩
    rw [h]
  | cons s ss ih =>
    rw [List.foldlM_cons, Except.bind_eq_ok]
    refine ⟨fun ⟨mid, hplace, hrest⟩ => ?_, fun hperm => ?_⟩
    · obtain ⟨k, htag, hnone, rfl⟩ := place_ok.mp hplace
      have hmid := (sections_update s.body hnone).append_right ss
      rw [htag] at hmid
      exact (List.perm_middle.trans hmid.symm).trans (ih.mp hrest)
    · -- the place of `s` is filled in the end, and by no other section
      have hin : s ∈ slots'.sections := hperm.mem_iff.mp (by simp)
      obtain ⟨k, htag, -⟩ := mem_sections.mp hin
      have hnone : slots k = none := by
        rcases hk : slots k with _ | body
        · rfl
        · have hnodup := (hperm.map Section.tag).nodup_iff.mpr slots'.nodup_tags
          rw [List.map_append, List.nodup_append] at hnodup
          have hold : ⟨k.tag, body⟩ ∈ slots.sections := mk_mem_sections.mpr hk
          exact absurd htag (hnodup.2.2 _ (List.mem_map_of_mem hold) _
            (List.mem_map_of_mem List.mem_cons_self))
      have hmid := (sections_update s.body hnone).append_right ss
      rw [htag] at hmid
      exact ⟨_, place_ok.mpr ⟨k, htag, hnone, rfl⟩,
        ih.mpr ((hmid.trans List.perm_middle.symm).trans hperm)⟩

end Slots

/-! ## The check -/

/-- The match of the nonce that was sent against the one in the receipt. -/
def checkChallenge : Option Bytes → Option Bytes → Except String Bytes
  | some want, some got => do
    checkNonce got
    Except.ensure (got = want) "nonce: the receipt answers another challenge"
    return got
  | some _, none =>
    .error "nonce: the receipt carries none; it is not an answer to this challenge"
  | none, some _ =>
    .error "nonce: the receipt carries one, but none was given to check it against"
  | none, none => .ok []

theorem checkChallenge_ok {want got : Option Bytes} {nonce : Bytes} :
    checkChallenge want got = .ok nonce ↔
      got = want ∧ nonce = want.getD [] ∧
        ∀ n, want = some n → 16 ≤ n.length ∧ n.length ≤ 64 := by
  rcases want with _ | want <;> rcases got with _ | got
  · simp [checkChallenge, eq_comm]
  · simp [checkChallenge]
  · simp [checkChallenge]
  · simp only [checkChallenge, Except.bind_eq_ok, checkNonce_ok, Except.ensure_eq_ok,
      Except.pure_eq_ok, exists_const, Option.some.injEq, Option.getD_some, forall_eq']
    constructor
    · rintro ⟨hlen, rfl, hnonce⟩
      exact ⟨rfl, hnonce.symm, hlen⟩
    · rintro ⟨rfl, hnonce, hlen⟩
      exact ⟨hlen, rfl, hnonce.symm⟩

/-- A nonce of legal length is there exactly if its bytes are. -/
theorem isEmpty_getD {nonce : Option Bytes}
    (hlen : ∀ n, nonce = some n → 16 ≤ n.length ∧ n.length ≤ 64) :
    (nonce.getD []).isEmpty = nonce.isNone := by
  rcases nonce with _ | n
  · rfl
  · have hn := (hlen n rfl).1
    rw [Option.getD_some, Option.isNone_some, List.isEmpty_eq_false_iff]
    rintro rfl
    exact absurd hn (by decide)

/-- `verify_stop_receipt`. -/
def verifyStopReceipt (receipt : Bytes) (t : StopTrust C) : Except String StopFinding := do
  let r ← Receipt.parse receipt
  let msg ← AttestationMessage.parse r.msg
  let q ← (Quote.parse r.quoteAttest).mapError fun e => s!"quote: {e}"
  verify t.ak.vk r.quoteAttest r.quoteSig "quote"
  Except.ensure (q.extraData = (stopQuoteQualifying C r.msg).toList)
    "quote: not bound to this receipt's message in the stop domain"
  let bank ← q.pcrBanks.sole fun n => s!"quote: covers {n} PCR banks, want exactly 1"
  let wantAlg : UInt16 := ofBe (msg.pcrSelection.toList.take 2)
  Except.ensure (bank.1 = wantAlg ∧ bank.2 = msg.pcrSelection.toList.drop 2)
    "quote: PCR selection differs from the message's"
  Except.ensure (q.pcrDigest = msg.pcrHash.toList)
    "quote: pcrDigest differs from the message's pcr_hash"
  Except.ensure (msg.pcrSelection = t.pcrSelection)
    "quote: covers other PCRs than the reference"
  Except.ensure (msg.pcrHash = t.pcrComposite)
    "quote: the boot PCRs are not the reference build's"
  Except.ensure (msg.deviceId = t.deviceId)
    (s!"receipt is from device {deviceIdDisplay msg.deviceId}, " ++
      s!"expected {deviceIdDisplay t.deviceId}")
  Except.ensure (evidenceDigest C r.bundle = msg.evidenceHash)
    "bundle: does not hash to the signed evidence_hash"
  let sections ← parseBundle r.bundle
  let slots ← sections.foldlM Slots.place Slots.empty
  let body ← Except.ofOption "bundle: no stop record" (slots .stopState)
  let record ← StopRecord.parse body
  Except.ensure (record.stopEpoch = msg.counter)
    "stop record: epoch differs from the message counter"
  let nonce ← checkChallenge t.nonce (slots .verifierNonce)
  Except.ensure (nonce = [] ∨ record.kind = .status)
    "stop record: a nonce-bound receipt must be a status answer"
  let cert ← Except.ofOption "bundle: no NV certify" (slots .tpmNvCertify)
  let c ← NvCertify.parse cert
  verify t.ak.vk c.attest c.sig "nv certify"
  checkCounterCertify c.attest (certifyQualifying C body nonce) (stopIndexName C).toList
    record.stopEpoch
  Except.ensure (¬ (record.stopEpoch.toNat % 2 = 1 ∧ record.state = .running))
    "stop record: odd counter reported as running"
  let info ← parseNvCertifyInfo c.attest
  let quoted := q.clockInfo
  Except.ensure (sameBoot info.clock quoted = true)
    (s!"receipt: the counter was read in one TPM boot (reset {info.clock.resetCount.toNat}, " ++
      s!"restart {info.clock.restartCount.toNat}) and the build quoted in another " ++
      s!"(reset {quoted.resetCount.toNat}, restart {quoted.restartCount.toNat})")
  return { kind := record.kind, state := record.state, stopEpoch := record.stopEpoch,
           policyDigest := record.policyDigest, fresh := !nonce.isEmpty, clock := info.clock }

/-! ## What a receipt that passes says -/

/-- The message that commits to a bundle at a counter value, for the device and the build the
verifier accepts. -/
def StopTrust.message (t : StopTrust C) (stopEpoch : UInt64) (bundle : Bytes) :
    AttestationMessage where
  deviceId := t.deviceId
  counter := stopEpoch
  pcrSelection := t.pcrSelection
  pcrHash := t.pcrComposite
  evidenceHash := evidenceDigest C bundle

/-- The sections of a bundle with these parts, in the order the device writes them. -/
def stopSections (record : StopRecord) (cert : NvCertify) (nonce : Option Bytes) : List Section :=
  [⟨tagStopState, record.bytes⟩, ⟨tagTpmNvCertify, cert.bytes⟩] ++
    nonce.toList.map (⟨tagVerifierNonce, ·⟩)

/-- The parts of a receipt. -/
structure Reading where
  receipt : Receipt
  quote : Quote
  record : StopRecord
  cert : NvCertify
  info : NvCertifyInfo

namespace Reading

variable (p : Reading)

/-- The finding. -/
def finding (nonce : Option Bytes) : StopFinding where
  kind := p.record.kind
  state := p.record.state
  stopEpoch := p.record.stopEpoch
  policyDigest := p.record.policyDigest
  fresh := nonce.isSome
  clock := p.info.clock

/-- What the verifier's checks come to: two statements signed under the key, over these parts and
nothing else. -/
structure Genuine (t : StopTrust C) : Prop where
  receipt : p.receipt.Legal
  msg : p.receipt.msg = (t.message p.record.stopEpoch p.receipt.bundle).bytes
  quote : Quote.parse p.receipt.quoteAttest = .ok p.quote
  quoteSigned : C.Verifies t.ak.vk p.receipt.quoteAttest p.receipt.quoteSig
  quoteBound : p.quote.extraData = (stopQuoteQualifying C p.receipt.msg).toList
  covers : Covers p.quote (t.message p.record.stopEpoch p.receipt.bundle)
  bundle : ∃ ss, parseBundle p.receipt.bundle = .ok ss ∧
    ss.Perm (stopSections p.record p.cert t.nonce)
  record : p.record.Legal
  challenge : ∀ n, t.nonce = some n →
    (16 ≤ n.length ∧ n.length ≤ 64) ∧ p.record.kind = .status
  cert : p.cert.Legal
  certSigned : C.Verifies t.ak.vk p.cert.attest p.cert.sig
  info : parseNvCertifyInfo p.cert.attest = .ok p.info
  certBound : p.info.extraData =
    (certifyQualifying C p.record.bytes (t.nonce.getD [])).toList
  index : p.info.indexName = (stopIndexName C).toList
  value : p.info.offset = 0 ∧ p.info.contents = be p.record.stopEpoch
  parity : p.record.stopEpoch.toNat % 2 = 1 → p.record.state ≠ .running
  boot : sameBoot p.info.clock p.quote.clockInfo = true

/-- The places the sections go to. -/
def slots (nonce : Option Bytes) : Slots
  | .stopState => some p.record.bytes
  | .tpmNvCertify => some p.cert.bytes
  | .verifierNonce => nonce

theorem sections_slots (nonce : Option Bytes) :
    (p.slots nonce).sections = stopSections p.record p.cert nonce := by
  cases nonce <;> rfl

end Reading

/-- **A receipt passes exactly if it has a genuine reading**, and the finding is read off it. -/
theorem verifyStopReceipt_ok {receipt : Bytes} {t : StopTrust C} {f : StopFinding} :
    verifyStopReceipt receipt t = .ok f ↔
      ∃ p : Reading, p.Genuine t ∧ receipt = p.receipt.bytes ∧ f = p.finding t.nonce := by
  unfold verifyStopReceipt
  simp only [Except.bind_eq_ok, Receipt.parse_ok, AttestationMessage.parse_ok,
    Except.mapError_eq_ok, verify_ok, Except.ensure_eq_ok, bank_eq_iff, Except.ofOption_eq_ok,
    Slots.foldlM_place_ok, StopRecord.parse_ok, checkChallenge_ok, NvCertify.parse_ok,
    checkCounterCertify_ok, Except.pure_eq_ok, exists_const]
  constructor
  · rintro ⟨r, ⟨hr, rfl⟩, msg, hmsg, q, hq, hqsig, hextra, bank, hbank, hsel, hdigest, hselection,
      hcomposite, hdevice, hevidence, ss, hss, slots, hslots, body, hbody, record,
      ⟨hrecord, rfl⟩, hepoch, nonce, ⟨hnonce, rfl, hlen⟩, hkind, cert, hcert, c, ⟨hc, rfl⟩, hcsig,
      ⟨i, hi, hbound, hindex, hoffset, hcontents⟩, hparity, info, hinfo, hboot, rfl⟩
    obtain rfl : i = info := Except.ok.inj (hi.symm.trans hinfo)
    let p : Reading := ⟨r, q, record, c, i⟩
    have hmessage : msg = t.message record.stopEpoch r.bundle := by
      obtain ⟨device, counter, selection, hash, evidence⟩ := msg
      simp only at hselection hcomposite hdevice hevidence hepoch
      rw [hselection, hcomposite, hdevice, ← hevidence, ← hepoch]
      rfl
    have hplaces : slots = p.slots t.nonce := by
      funext k
      cases k with
      | stopState => exact hbody
      | tpmNvCertify => exact hcert
      | verifierNonce => exact hnonce
    have hsections : ss.Perm (stopSections p.record p.cert t.nonce) := by
      rw [← p.sections_slots, ← hplaces]
      exact hslots
    have hbanks := (PcrBanks.sole_ok (Quote.parse_ok.mp hq).1.banks).mp hbank
    subst hmessage
    refine ⟨p, ⟨hr, hmsg, hq, hqsig, hextra, ⟨⟨bank, hbanks, hsel⟩, hdigest⟩, ⟨ss, hss, hsections⟩,
      hrecord, fun n hn => ⟨hlen n hn, ?_⟩, hc, hcsig, hi, hbound, hindex, ⟨hoffset, hcontents⟩,
      fun hodd hrunning => hparity ⟨hodd, hrunning⟩, hboot⟩, rfl, ?_⟩
    · refine hkind.resolve_left fun hempty => ?_
      have hnone := isEmpty_getD hlen
      rw [hempty, hn] at hnone
      cases hnone
    · have hfresh : (!(t.nonce.getD []).isEmpty) = t.nonce.isSome := by
        rw [isEmpty_getD hlen, Option.not_isNone]
      rw [hfresh]
      rfl
  · rintro ⟨p, hp, rfl, rfl⟩
    obtain ⟨⟨bank, hbanks, hsel⟩, hdigest⟩ := hp.covers
    obtain ⟨ss, hss, hsections⟩ := hp.bundle
    have hlen : ∀ n, t.nonce = some n → 16 ≤ n.length ∧ n.length ≤ 64 :=
      fun n hn => (hp.challenge n hn).1
    have hslots : (Slots.empty.sections ++ ss).Perm (Slots.sections (p.slots t.nonce)) := by
      rw [p.sections_slots]
      exact hsections
    have hkind : t.nonce.getD [] = [] ∨ p.record.kind = .status := by
      rcases hn : t.nonce with _ | n
      · exact .inl rfl
      · exact .inr (hp.challenge n hn).2
    refine ⟨p.receipt, ⟨hp.receipt, rfl⟩, _, hp.msg, p.quote, hp.quote, hp.quoteSigned,
      hp.quoteBound, bank, (PcrBanks.sole_ok (Quote.parse_ok.mp hp.quote).1.banks).mpr hbanks,
      hsel, hdigest, rfl, rfl, rfl, rfl, ss, hss, p.slots t.nonce, hslots, p.record.bytes, rfl,
      p.record, ⟨hp.record, rfl⟩, rfl, t.nonce.getD [], ⟨rfl, rfl, hlen⟩, hkind, p.cert.bytes, rfl,
      p.cert, ⟨hp.cert, rfl⟩, hp.certSigned,
      ⟨p.info, hp.info, hp.certBound, hp.index, hp.value⟩, fun h => hp.parity h.1 h.2, p.info,
      hp.info, hp.boot, ?_⟩
    rw [isEmpty_getD hlen, Option.not_isNone]
    rfl

/-! ## Two answers of one TPM

For the examples: two status answers of a software TPM with PCRs 0, 1 and 8 at their reset value and
the stop counter at 1, made two seconds apart in one boot. -/

namespace Sample

/-- The hash alone; no signature verifies. -/
def hashes : Crypto := .ofTable []

def deviceId : Bytes := Text.ascii "TACTIQ-SWTPM-01"

def vk : Bytes :=
  encode 33 0x043bb348098172b829e0dc64a7d73a0cd41244a4eb37d4284e92cb781e5f978277 ++
    encode 32 0x1a920a436e6f3c3d3a3df205c113f83a6cb30afb6de65d98024d68c0edd31ea9

def selection : List.Vector UInt8 pcrSelectionLen :=
  encodePcrSelection tpmAlgSha256 ⟨[0x03, 0x01, 0x00], rfl⟩

def pcrState : Bytes := List.replicate 96 0

def record : StopRecord where
  kind := .status
  state := .stopped
  stopEpoch := 1
  policyDigest := ⟨encode 32 0xf20ccd033ad314ceffac84aaffac31cb93d509245598ed3f5b6e16ec70e91b2d,
    length_encode _ _⟩

/-- The qualified name of the key, which every statement carries. -/
def signer : Bytes :=
  encode 34 0x000ba11eec8ba924d760acdb56afcae8bf5cae387017db7e73f74d983309b42faf29

def firmwareVersion : UInt64 := 0x2019102300163636

/-- A status answer: the nonce, and when and how the TPM signed its two statements. -/
structure Answer where
  nonce : Bytes
  certClock : UInt64
  certSig : Bytes
  quoteClock : UInt64
  quoteSig : Bytes

namespace Answer

variable (a : Answer)

def info : NvCertifyInfo where
  qualifiedSigner := signer
  extraData := (certifyQualifying hashes record.bytes a.nonce).toList
  clock := ⟨a.certClock, 1, 0, true⟩
  indexName := (stopIndexName hashes).toList
  offset := 0
  contents := be (1 : UInt64)

def cert : NvCertify := ⟨a.info.bytes firmwareVersion, a.certSig⟩

def bundle : Bytes := (stopSections record a.cert (some a.nonce)).flatMap Section.frame

def msg : Bytes := buildCanonical hashes deviceId 1 selection pcrState a.bundle

def quote : Quote where
  qualifiedSigner := signer
  extraData := (stopQuoteQualifying hashes a.msg).toList
  clockInfo := ⟨a.quoteClock, 1, 0, true⟩
  firmwareVersion := firmwareVersion
  pcrBanks := ⟨1, bankBytes (tpmAlgSha256, [0x03, 0x01, 0x00]), by decide⟩
  pcrDigest := (hashes.sha256 pcrState).toList

def receipt : Receipt := ⟨a.msg, a.quote.bytes, a.quoteSig, a.bundle⟩

/-- The signatures in the answer, as key, signed bytes and signature. -/
def signatures : List (Bytes × Bytes × Bytes) :=
  [(vk, a.cert.attest, a.certSig), (vk, a.quote.bytes, a.quoteSig)]

theorem info_wire : a.info.Wire where
  signer := by
    show signer.length < 65536
    decide
  extra := by
    show (certifyQualifying hashes record.bytes a.nonce).toList.length < 65536
    rw [List.Vector.toList_length]
    decide
  name := by
    show (stopIndexName hashes).toList.length < 65536
    rw [List.Vector.toList_length]
    decide
  contents := by
    show (be (1 : UInt64)).length < 65536
    decide

theorem quote_wire : a.quote.Wire where
  signer := by
    show signer.length < 65536
    decide
  extra := by
    show (stopQuoteQualifying hashes a.msg).toList.length < 65536
    rw [List.Vector.toList_length]
    decide
  count := by
    show (1 : UInt32) ≤ Quote.maxBanks
    decide
  banks := ⟨[(tpmAlgSha256, [0x03, 0x01, 0x00])], rfl, by decide, rfl⟩
  digest := by
    show (hashes.sha256 pcrState).toList.length < 65536
    rw [List.Vector.toList_length]
    decide

end Answer

def first : Answer where
  nonce := encode 32 0xca7f4f15178b2f45927dc96efe6d6f39814c02f07fb2501bcc32d5e628303750
  certClock := 717
  certSig :=
    encode 35 0x304402203cd1de2fe91bee7bb4c0e709d41adc105175c65e9d6f2227af36d8154ea1eb ++
      encode 35 0xc102203e9fba0711480d150cb524ed94e70d6f52283591d56847f5ba8e2b739feb452d
  quoteClock := 732
  quoteSig :=
    encode 36 0x3046022100c27f2fedab53fe282170042578a07f02792f125fb128ee60cd46d21f99a898 ++
      encode 36 0x2d022100c17320dd5d6e2299a4d90c6951fda22b1a682c047290630a770f0003163ac216

def second : Answer where
  nonce := encode 32 0x69a669b25376286c14b9934357a1cd3c9ba757501922bd9347085fb80541ad8d
  certClock := 2780
  certSig :=
    encode 36 0x3045022023442b7b21b1d0f3f341397068cadeb0bb95f1523f96a4a3031a22c99cca387d ++
      encode 35 0x022100fe882e608e9ced50b5c6afee97c5ab5352b93cecf452ae892b02bee321e49e8c
  quoteClock := 2796
  quoteSig :=
    encode 35 0x3044022066a3b1f439d29fd6cae36fb0e5df50740cf7152c498966e4b35f0a48731ab6 ++
      encode 35 0xf802203c19386d3a3a1bb8fd2dc89c1a9180536dfed2628ac5e14e570f622689d34b93

/-- A key that has signed the four statements of the two answers and nothing else. -/
def crypto : Crypto := .ofTable (first.signatures ++ second.signatures)

/-- What the verifier of those answers holds. -/
def trust : StopTrust crypto where
  ak :=
    { vk := vk
      name := ⟨encode 34 0x000b9e32021ea6df3cc9ad38d4d4a4ae098b5357a07f1dcb19e2a3fbb838c1520539,
        length_encode _ _⟩ }
  deviceId := padDeviceId deviceId
  pcrSelection := selection
  pcrComposite := crypto.sha256 pcrState
  nonce := none

end Sample

end TactiqAttest.Appraise
